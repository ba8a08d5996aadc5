import Mathlib.Data.List.Forall2
import Semihosting.Proofs.Message.Reading
import Semihosting.Proofs.Request.Reencoding

/-!
# Bytes that mean nothing

Padding, reserved bytes, bytes behind the meaningful part of a payload, the payloads of chunks that
are skipped, and whatever follows the container have no influence on how a message is read. Which
bytes of a chunk these are depends on the configuration in effect before it. Main result: messages
that differ in nothing else are read alike (`meaningless_bytes_are_ignored`).
-/
namespace Semihosting

open Riff (Chunk Container Frame FourCC WireFrame formWidth offsetSpace)
open Riff.WireFrame (concat)

/-! ### Frames that agree on what they mean -/

/-- Frames of one kind and size whose payloads have so many first bytes in common. -/
structure Riff.WireFrame.Agrees (width : Nat) (left right : WireFrame) : Prop where
  tag : left.tag = right.tag
  size : left.payload.length = right.payload.length
  front : left.payload.take width = right.payload.take width

theorem Riff.WireFrame.Agrees.length_bytes {width : Nat} {left right : WireFrame}
    (agrees : left.Agrees width right) : left.bytes.length = right.bytes.length := by
  rw [WireFrame.length_bytes, WireFrame.length_bytes, agrees.size]

namespace Message

/-- The number of meaningful bytes at the front of a chunk that is not a call. -/
def meantWidth (config : Option Configuration) (tag : FourCC) : Nat :=
  -- The fourth byte of a configuration is reserved.
  if tag = .cnfg then 3
  else if tag = .retn then (config.map Configuration.returnPayloadSize).getD 0
  else if tag = .erro then Response.errorPayloadSize
  else 0

/-- The number of meaningful bytes of a chunk inside a call. -/
def meantInside (frame : WireFrame) : Nat :=
  if frame.tag = .parm ∨ frame.tag = .data then frame.payload.length else 0

/-- Frames that mean the same under the configuration in effect. -/
inductive FrameAlike (config : Option Configuration) : WireFrame → WireFrame → Prop
  | plain {left right} : left.tag ≠ .call → left.Agrees (meantWidth config left.tag) right →
      FrameAlike config left right
  -- Of the header only the opcode means something.
  | call {left right known header other inner others} :
      left.tag = .call → right.tag = .call → config = some known →
      Request.Parts known left.payload header inner →
      Request.Parts known right.payload other others →
      header.take known.intSize.bytes = other.take known.intSize.bytes →
      List.Forall₂ (fun frame changed => frame.Agrees (meantInside frame) changed) inner others →
      FrameAlike config left right

/-- Frames that mean the same one by one, each under the configuration in effect before it. -/
inductive Alike : Option Configuration → List WireFrame → List WireFrame → Prop
  | nil (config) : Alike config [] []
  | cons {config left right lefts rights} : FrameAlike config left right →
      Alike (settle config left) lefts rights → Alike config (left :: lefts) (right :: rights)

/-! ### Payloads -/

/-- Strings of one length that agree at the front are the same or differ only behind it. -/
theorem eq_or_split {left right : Bytes} {width : Nat} (size : left.length = right.length)
    (front : left.take width = right.take width) :
    left = right ∨ ∃ shared first second rest rest', shared.length = width ∧
      left = shared ++ first :: rest ∧ right = shared ++ second :: rest' := by
  by_cases short : left.length ≤ width
  · left
    rwa [List.take_of_length_le short, List.take_of_length_le (size ▸ short)] at front
  · right
    obtain ⟨first, rest, behind⟩ := List.exists_cons_of_length_pos
      (l := left.drop width) (by rw [List.length_drop]; omega)
    obtain ⟨second, rest', behind'⟩ := List.exists_cons_of_length_pos
      (l := right.drop width) (by rw [List.length_drop]; omega)
    refine ⟨left.take width, first, second, rest, rest', List.length_take_of_le (by omega), ?_, ?_⟩
    · rw [← behind, List.take_append_drop]
    · rw [front, ← behind', List.take_append_drop]

theorem negotiate_congr {left right : Bytes} (offset : Nat) (size : left.length = right.length)
    (front : left.take 3 = right.take 3) :
    Configuration.negotiate ⟨.cnfg, offset, left⟩ =
      Configuration.negotiate ⟨.cnfg, offset, right⟩ := by
  rcases eq_or_split size front with rfl | ⟨shared, reserved, other, rest, rest', three, rfl, rfl⟩
  · rfl
  · obtain ⟨intSize, ptrSize, order, rfl⟩ := List.length_eq_three.mp three
    rfl

theorem decodeError_congr {left right : Bytes} (size : left.length = right.length)
    (front : left.take Response.errorPayloadSize = right.take Response.errorPayloadSize) :
    Response.decodeError left = Response.decodeError right := by
  rcases eq_or_split size front with rfl | ⟨shared, first, other, rest, rest', four, rfl, rfl⟩
  · rfl
  · match shared, four with
    | [a, b, c, d], _ => rfl

theorem decodeResult_congr {config : Configuration} {left right : Bytes}
    (size : left.length = right.length)
    (front : left.take config.returnPayloadSize = right.take config.returnPayloadSize) :
    Response.decodeResult config left = Response.decodeResult config right := by
  -- The value and the error number are next to each other, so the front holds both in common.
  have twice : config.returnPayloadSize = config.intSize.bytes + config.intSize.bytes :=
    Nat.two_mul _
  rw [twice] at front
  have value : left.take config.intSize.bytes = right.take config.intSize.bytes := by
    have cut := congrArg (List.take config.intSize.bytes) front
    rwa [List.take_take, List.take_take, Nat.min_eq_left (Nat.le_add_left _ _)] at cut
  have errno : (left.drop config.intSize.bytes).take config.intSize.bytes =
      (right.drop config.intSize.bytes).take config.intSize.bytes := by
    have cut := congrArg (List.drop config.intSize.bytes) front
    rwa [List.drop_take, List.drop_take, Nat.add_sub_cancel] at cut
  simp only [Response.decodeResult, size, value, errno]

/-! ### Calls -/

theorem absorbFrame_congr {config : Configuration} {limits : Limits} {left right : WireFrame}
    (agrees : left.Agrees (meantInside left) right) (request : Request) :
    Request.absorbFrame config limits request left.toFrame =
      Request.absorbFrame config limits request right.toFrame := by
  by_cases meant : left.tag = .parm ∨ left.tag = .data
  · have front := agrees.front
    rw [meantInside, if_pos meant, List.take_length, agrees.size, List.take_length] at front
    simp only [Request.absorbFrame, agrees.tag, front]
  · obtain ⟨notParameters, notData⟩ := not_or.mp meant
    rw [Request.absorbFrame_of_unknown request notParameters notData]
    rw [agrees.tag] at notParameters notData
    rw [Request.absorbFrame_of_unknown request notParameters notData]

theorem foldlM_congr {config : Configuration} {limits : Limits} {inner others : List WireFrame}
    (agree : List.Forall₂ (fun frame changed => frame.Agrees (meantInside frame) changed)
      inner others) (request : Request) :
    (inner.map WireFrame.toFrame).foldlM (Request.absorbFrame config limits) request =
      (others.map WireFrame.toFrame).foldlM (Request.absorbFrame config limits) request := by
  induction agree generalizing request with
  | nil => rfl
  | cons agrees _ ih =>
    rw [List.map_cons, List.map_cons, List.foldlM_cons, List.foldlM_cons,
      absorbFrame_congr agrees]
    exact congrArg _ (funext ih)

/-- A call is read alike whatever stands in the tail of its header and in the frames without a
meaning. -/
theorem decode_alike {config : Configuration} {limits : Limits} {left right : WireFrame}
    {header other : Bytes} {inner others : List WireFrame} {request : Request}
    (parts : Request.Parts config left.payload header inner)
    (parts' : Request.Parts config right.payload other others)
    (opcode : header.take config.intSize.bytes = other.take config.intSize.bytes)
    (agree : List.Forall₂ (fun frame changed => frame.Agrees (meantInside frame) changed)
      inner others)
    (decoded : Request.decode config limits left.payload = .ok request) :
    Request.decode config limits right.payload = .ok request := by
  obtain ⟨_, _, number, split, room, read, gathered⟩ :=
    (Request.decode_eq_ok_iff left.fits).mp decoded
  obtain ⟨rfl, rfl⟩ := split.unique parts
  have read' : Request.readOpcode config other = .ok number := by
    rw [← read]
    simp only [Request.readOpcode, opcode]
  rw [foldlM_congr agree] at gathered
  exact (Request.decode_eq_ok_iff right.fits).mpr
    ⟨other, others, number, parts', agree.length_eq ▸ room, read', gathered⟩

/-! ### Messages -/

variable {limits : Limits} {config : Option Configuration}

/-- Frames that agree where bytes have a meaning are taken in the same way. -/
theorem FrameAlike.accepts {left right : WireFrame} {progress after : Progress}
    {event : Option Event} (alike : FrameAlike progress.config left right)
    (accepted : progress.Accepts limits (left.chunkAt 0) event after) :
    progress.Accepts limits (right.chunkAt 0) event after := by
  cases alike with
  | plain notCall agrees =>
    have size := agrees.size
    have front := agrees.front
    -- A chunk of any kind but a call is judged by its size and by the bytes that are meant in it.
    cases accepted with
    | configured tag negotiated =>
      have tag : left.tag = .cnfg := tag
      rw [meantWidth, if_pos tag] at front
      refine .configured (agrees.tag.symm.trans tag) ?_
      rw [← negotiated, WireFrame.chunkAt, WireFrame.chunkAt, tag, ← agrees.tag, tag]
      exact (negotiate_congr 0 size front).symm
    | call tag => exact absurd tag notCall
    | result tag known decoded =>
      have tag : left.tag = .retn := tag
      rw [meantWidth, if_neg (by rw [tag]; decide), if_pos tag, known] at front
      refine .result (agrees.tag.symm.trans tag) known ?_
      rw [← decoded]
      exact (decodeResult_congr size front).symm
    | error tag decoded =>
      have tag : left.tag = .erro := tag
      rw [meantWidth, if_neg (by rw [tag]; decide), if_neg (by rw [tag]; decide), if_pos tag]
        at front
      refine .error (agrees.tag.symm.trans tag) ?_
      rw [← decoded]
      exact (decodeError_congr size front).symm
    | skipped notConfiguration notCall notResult notError =>
      have same : (right.chunkAt 0).tag = (left.chunkAt 0).tag := agrees.tag.symm
      rw [← same] at notConfiguration notCall notResult notError
      exact .skipped notConfiguration notCall notResult notError
  | call tag tag' known parts parts' opcode agree =>
    obtain ⟨config, request, room, known', decoded, rfl, rfl⟩ := accepted.of_call tag
    cases known.symm.trans known'
    exact .call tag' room known (decode_alike parts parts' opcode agree decoded)

/-- Frames that are alike one by one have the same events. The configuration in effect goes along,
since it decides how much of a frame has a meaning. -/
theorem Alike.reads {lefts rights : List WireFrame} {progress after : Progress}
    {events : List Event} (alike : Alike progress.config lefts rights)
    (reads : Reads limits progress lefts events after) :
    Reads limits progress rights events after := by
  -- What a frame says decides what the bytes behind it mean, so the two readings go in step.
  induction reads generalizing rights with
  | nil =>
    cases alike
    exact .nil _
  | cons accepted _ ih =>
    cases alike with
    | cons first others =>
      rw [← accepted.settle] at others
      exact .cons (first.accepts accepted) (ih others)

theorem length_concat_of_agree {inner others : List WireFrame}
    (agree : List.Forall₂ (fun frame changed => frame.Agrees (meantInside frame) changed)
      inner others) : (concat inner).length = (concat others).length := by
  induction agree with
  | nil => rfl
  | cons agrees _ ih =>
    rw [WireFrame.concat_cons, WireFrame.concat_cons, List.length_append, List.length_append,
      agrees.length_bytes, ih]

theorem FrameAlike.length_bytes {left right : WireFrame} (alike : FrameAlike config left right) :
    left.bytes.length = right.bytes.length := by
  cases alike with
  | plain _ agrees => exact agrees.length_bytes
  | call _ _ _ parts parts' _ agree =>
    -- The headers are of one width, and the frames behind them agree in size one by one.
    have size : left.payload.length = right.payload.length := by
      rw [parts.whole, parts'.whole, List.length_append, List.length_append, parts.width,
        parts'.width, length_concat_of_agree agree]
    rw [WireFrame.length_bytes, WireFrame.length_bytes, size]

theorem Alike.length_concat {lefts rights : List WireFrame} (alike : Alike config lefts rights) :
    (concat lefts).length = (concat rights).length ∧ lefts.length = rights.length := by
  induction alike with
  | nil => exact ⟨rfl, rfl⟩
  | cons first _ ih =>
    simp only [WireFrame.concat_cons, List.length_append, List.length_cons, first.length_bytes,
      ih.1, ih.2, and_self]

/-- A message that is read means what it means itself: each of its calls is well-formed. -/
theorem Reads.alike_self {progress after : Progress} {frames : List WireFrame}
    {events : List Event} (reads : Reads limits progress frames events after) :
    Alike progress.config frames frames := by
  induction reads with
  | nil => exact .nil _
  | @cons progress middle after frame frames _ _ accepted _ ih =>
    rw [accepted.settle] at ih
    refine .cons ?_ ih
    by_cases tag : frame.tag = .call
    · obtain ⟨config, request, -, known, decoded, -, -⟩ := accepted.of_call tag
      obtain ⟨header, inner, opcode, parts, -, -, -⟩ :=
        (Request.decode_eq_ok_iff frame.fits).mp decoded
      exact .call tag tag known parts parts rfl
        (List.forall₂_same.mpr fun inside _ => ⟨rfl, rfl, rfl⟩)
    · exact .plain tag ⟨rfl, rfl, rfl⟩

/-- Whenever a message is read without a fault, the bytes that mean nothing may be changed and the
bytes behind the container changed, extended or removed: run, calls and reply stay the same. -/
theorem meaningless_bytes_are_ignored {buffer : Bytes} {events : List Event}
    (read : run limits buffer = .ok ⟨events, none⟩) :
    ∃ frames tail, Framed buffer frames tail ∧ Alike none frames frames ∧
      ∀ others tail', Alike none frames others →
        (concat others).length = (concat frames).length ∧
        run limits (Container.wrap (concat others) ++ tail') = run limits buffer ∧
        calls limits (Container.wrap (concat others) ++ tail') = calls limits buffer ∧
        reply limits (Container.wrap (concat others) ++ tail') = reply limits buffer := by
  obtain ⟨frames, tail, after, framed, room, reads⟩ := run_eq_ok_iff.mp read
  refine ⟨frames, tail, framed, reads.alike_self, fun others tail' alike => ?_⟩
  obtain ⟨size, count⟩ := alike.length_concat
  have framed' : Framed (Container.wrap (concat others) ++ tail') others tail' :=
    ⟨size ▸ framed.short, rfl⟩
  have read' : run limits (Container.wrap (concat others) ++ tail') = run limits buffer := by
    rw [read]
    exact run_eq_ok_iff.mpr ⟨others, tail', after, framed', count ▸ room, alike.reads reads⟩
  exact ⟨size.symm, read', calls_eq_of_run_eq read', reply_eq_of_run_eq read'⟩

def spareConfig : Configuration := ⟨.two, .four, .big⟩

/-- A frame that is padded with the given byte. -/
def spareFrame (spare : UInt8) (frame : Frame) (fits : frame.payload.length < offsetSpace) :
    WireFrame where
  toFrame := frame
  pad := List.replicate (Frame.padding frame.payload.length) spare
  fits := fits
  pad_length := List.length_replicate

/-- The frames inside a call, with the given byte wherever a byte means nothing. -/
def spareInner (spare : UInt8) : List WireFrame :=
  [spareFrame spare ⟨.retn, [spare]⟩ (show 1 < offsetSpace by decide),
    spareFrame spare ⟨.parm, [0, 0, 0, 1]⟩ (show 4 < offsetSpace by decide)]

/-- A message of every kind of chunk, with the given byte wherever a byte means nothing. -/
def spareFrames (spare : UInt8) : List WireFrame :=
  [spareFrame spare ⟨.cnfg, [2, 4, 1, spare, spare]⟩ (show 5 < offsetSpace by decide),
    spareFrame spare ⟨.data, [spare]⟩ (show 1 < offsetSpace by decide),
    spareFrame spare ⟨.call, [0, 5, spare, spare] ++ concat (spareInner spare)⟩
      (show 26 < offsetSpace by decide),
    spareFrame spare ⟨.retn, [0, 1, 0, 2, spare]⟩ (show 5 < offsetSpace by decide),
    spareFrame spare ⟨.erro, [3, 0, 0, 0, spare]⟩ (show 5 < offsetSpace by decide)]

theorem alike_spareFrames (spare other : UInt8) :
    Alike none (spareFrames spare) (spareFrames other) := by
  have inside : List.Forall₂ (fun frame changed => frame.Agrees (meantInside frame) changed)
      (spareInner spare) (spareInner other) :=
    .cons ⟨rfl, rfl, rfl⟩ (.cons ⟨rfl, rfl, rfl⟩ .nil)
  have parts (byte : UInt8) : Request.Parts spareConfig
      ([0, 5, byte, byte] ++ concat (spareInner byte)) [0, 5, byte, byte] (spareInner byte) :=
    ⟨rfl, rfl⟩
  -- The configuration comes first, so it is in effect from the second frame on.
  unfold spareFrames
  refine .cons (.plain (show FourCC.cnfg ≠ .call by decide) ⟨rfl, rfl, rfl⟩) ?_
  refine .cons (.plain (show FourCC.data ≠ .call by decide) ⟨rfl, rfl, rfl⟩) ?_
  refine .cons (.call rfl rfl rfl (parts spare) (parts other) rfl inside) ?_
  refine .cons (.plain (show FourCC.retn ≠ .call by decide) ⟨rfl, rfl, rfl⟩) ?_
  refine .cons (.plain (show FourCC.erro ≠ .call by decide) ⟨rfl, rfl, rfl⟩) ?_
  exact .nil _

/-- What the message says. -/
def spareEvents : List Event :=
  [.configured spareConfig, .call ⟨spareConfig, 5, [.ofNat 1 4], none⟩, .response (.result 1 2),
    .response (.error 3)]

theorem spare_bytes_are_ignored :
    run ⟨5, 1, 1⟩ (Container.wrap (concat (spareFrames 0))) = .ok ⟨spareEvents, none⟩ ∧
    run ⟨5, 1, 1⟩ (Container.wrap (concat (spareFrames 0xFF)) ++ [0x52, 0x49]) =
      .ok ⟨spareEvents, none⟩ := by
  have read : run ⟨5, 1, 1⟩ (Container.wrap (concat (spareFrames 0))) =
      .ok ⟨spareEvents, none⟩ := by decide +kernel
  have framed : Framed (Container.wrap (concat (spareFrames 0))) (spareFrames 0) [] :=
    ⟨by decide, (List.append_nil _).symm⟩
  obtain ⟨frames, tail, framed', -, ignored⟩ := meaningless_bytes_are_ignored read
  obtain ⟨rfl, -⟩ := framed.unique framed'
  obtain ⟨-, same, -⟩ := ignored (spareFrames 0xFF) [0x52, 0x49] (alike_spareFrames 0 0xFF)
  exact ⟨read, same.trans read⟩

end Message

end Semihosting
