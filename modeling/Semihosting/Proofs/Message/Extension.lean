import Semihosting.Proofs.Message.Ample

/-!
# Frames that no reader knows

A later version of the format may add chunks of new kinds, to a message or to a call. Such a chunk
moves those behind it and makes the call and the container around it longer, but readers pass over
it. Main result: a message says the same with an unknown frame as without it
(`unknown_frames_are_passed_over`).
-/
namespace Semihosting

open Riff (Container Frame FourCC WireFrame formWidth offsetSpace)
open Riff.WireFrame (concat)

namespace Message

/-- A frame of a kind that means nothing in a message. -/
structure Unknown (frame : WireFrame) : Prop where
  notConfiguration : frame.tag ≠ .cnfg
  notCall : frame.tag ≠ .call
  notResult : frame.tag ≠ .retn
  notError : frame.tag ≠ .erro

/-- A frame of a kind that means nothing inside a call. -/
structure UnknownInside (frame : WireFrame) : Prop where
  notParameters : frame.tag ≠ .parm
  notData : frame.tag ≠ .data

/-- Frames, and the same frames with an unknown one more, at any place between them or at any place
inside a call. Where the frames inside a call begin is up to the configuration in effect. -/
inductive Extends : List WireFrame → List WireFrame → Prop
  | between (before behind) {frame} : Unknown frame →
      Extends (before ++ behind) (before ++ frame :: behind)
  | inside (before behind) {config call longer header front back frame} :
      settled none before = some config → call.tag = .call → longer.tag = .call →
      Request.Parts config call.payload header (front ++ back) →
      Request.Parts config longer.payload header (front ++ frame :: back) → UnknownInside frame →
      Extends (before ++ call :: behind) (before ++ longer :: behind)

/-! ### Calls -/

theorem foldlM_unknown {config : Configuration} {limits : Limits} {frame : WireFrame}
    (unknown : UnknownInside frame) (front back : List WireFrame) (request : Request) :
    ((front ++ frame :: back).map WireFrame.toFrame).foldlM (Request.absorbFrame config limits)
        request =
      ((front ++ back).map WireFrame.toFrame).foldlM (Request.absorbFrame config limits)
        request := by
  rw [List.map_append, List.map_append, List.map_cons, List.foldlM_append, List.foldlM_append]
  -- The frames in front are taken in first, and what they add up to passes the unknown one as is.
  refine congrArg _ (funext fun gathered => ?_)
  rw [List.foldlM_cons,
    Request.absorbFrame_of_unknown gathered unknown.notParameters unknown.notData]
  rfl

/-- A call asks for the same with an unknown frame inside as without it. -/
theorem decode_unknown_iff {config : Configuration} {call longer frame : WireFrame}
    {header : Bytes} {front back : List WireFrame} {request : Request}
    (parts : Request.Parts config call.payload header (front ++ back))
    (parts' : Request.Parts config longer.payload header (front ++ frame :: back))
    (unknown : UnknownInside frame) :
    Request.decode config .unbounded longer.payload = .ok request ↔
      Request.decode config .unbounded call.payload = .ok request := by
  -- Chunks take up bytes, so no call holds more of them than the widest limit allows.
  have room {whole : WireFrame} {inner : List WireFrame}
      (parts : Request.Parts config whole.payload header inner) :
      inner.length ≤ Limits.unbounded.maxChunks.toNat := by
    have fits := whole.fits
    rw [parts.whole, List.length_append] at fits
    exact (Limits.ample_unbounded (by omega)).length_le
  rw [Request.decode_eq_ok_iff longer.fits, Request.decode_eq_ok_iff call.fits]
  constructor
  · rintro ⟨_, _, opcode, split, -, read, gathered⟩
    obtain ⟨rfl, rfl⟩ := split.unique parts'
    rw [foldlM_unknown unknown] at gathered
    exact ⟨_, _, opcode, parts, room parts, read, gathered⟩
  · rintro ⟨_, _, opcode, split, -, read, gathered⟩
    obtain ⟨rfl, rfl⟩ := split.unique parts
    rw [← foldlM_unknown unknown] at gathered
    exact ⟨_, _, opcode, parts', room parts', read, gathered⟩

/-! ### Messages -/

variable {limits : Limits} {progress after : Progress} {before behind : List WireFrame}
  {events : List Event}

theorem Unknown.accepts {frame : WireFrame} (unknown : Unknown frame) (progress : Progress) :
    progress.Accepts limits (frame.chunkAt 0) none progress :=
  .skipped unknown.notConfiguration unknown.notCall unknown.notResult unknown.notError

theorem Unknown.eq_of_accepts {frame : WireFrame} {event : Option Event}
    (unknown : Unknown frame) (accepted : progress.Accepts limits (frame.chunkAt 0) event after) :
    event = none ∧ after = progress := by
  cases accepted with
  | configured tag => exact absurd tag unknown.notConfiguration
  | call tag => exact absurd tag unknown.notCall
  | result tag => exact absurd tag unknown.notResult
  | error tag => exact absurd tag unknown.notError
  | skipped => exact ⟨rfl, rfl⟩

/-- Frames are read as before with one among them that has no meaning. -/
theorem reads_unknown_iff {frame : WireFrame} (unknown : Unknown frame) :
    Reads limits progress (before ++ frame :: behind) events after ↔
      Reads limits progress (before ++ behind) events after := by
  constructor
  · intro reads
    obtain ⟨first, second, middle, rfl, front, back⟩ := reads.of_append
    cases back with
    | cons accepted later =>
      obtain ⟨rfl, rfl⟩ := unknown.eq_of_accepts accepted
      exact front.append later
  · intro reads
    obtain ⟨first, second, middle, rfl, front, back⟩ := reads.of_append
    exact front.append (.cons (unknown.accepts middle) back)

/-- A call may be exchanged for one that asks for the same under the configuration in effect. -/
theorem Reads.exchange {config : Configuration} {call other : WireFrame}
    (known : Message.settled progress.config before = some config)
    (tag : call.tag = .call) (tag' : other.tag = .call)
    (same : ∀ request, Request.decode config limits call.payload = .ok request →
      Request.decode config limits other.payload = .ok request)
    (reads : Reads limits progress (before ++ call :: behind) events after) :
    Reads limits progress (before ++ other :: behind) events after := by
  obtain ⟨first, second, middle, rfl, front, back⟩ := reads.of_append
  refine front.append ?_
  cases back with
  | cons accepted later =>
    obtain ⟨config', request, room, known', decoded, rfl, rfl⟩ := accepted.of_call tag
    -- Both configurations are the one that the frames in front leave in effect.
    rw [front.settled, known] at known'
    cases known'
    exact .cons (.call tag' room (front.settled.trans known) (same request decoded)) later

/-- An unknown frame more, at either level, changes nothing in how frames are read. -/
theorem Extends.reads_iff {frames others : List WireFrame} (more : Extends frames others) :
    Reads .unbounded .start others events after ↔ Reads .unbounded .start frames events after := by
  cases more with
  | between before behind unknown => exact reads_unknown_iff unknown
  | inside before behind known tag tag' parts parts' unknown =>
    constructor
    · exact .exchange known tag' tag fun _ => (decode_unknown_iff parts parts' unknown).mp
    · exact .exchange known tag tag' fun _ => (decode_unknown_iff parts parts' unknown).mpr

theorem Extends.length_concat_le {frames others : List WireFrame}
    (more : Extends frames others) : (concat frames).length ≤ (concat others).length := by
  cases more with
  | between before behind _ =>
    simp only [WireFrame.concat_append, WireFrame.concat_cons, List.length_append]
    omega
  | @inside before behind _ call longer _ _ _ _ _ _ _ parts parts' _ =>
    have size : call.payload.length ≤ longer.payload.length := by
      rw [parts.whole, parts'.whole]
      simp only [WireFrame.concat_append, WireFrame.concat_cons, List.length_append]
      omega
    -- A longer payload may lack the padding of a shorter one and still takes up no fewer bytes.
    have span := Frame.span_mono size
    simp only [WireFrame.concat_append, WireFrame.concat_cons, List.length_append,
      WireFrame.length_bytes]
    simp only [Frame.span] at span
    omega

theorem run_unbounded_eq_ok_iff {buffer tail : Bytes} {frames : List WireFrame}
    (framed : Framed buffer frames tail) :
    run .unbounded buffer = .ok ⟨events, none⟩ ↔
      ∃ after, Reads .unbounded .start frames events after := by
  rw [run_eq_ok_iff]
  constructor
  · rintro ⟨others, tail', after, framed', -, reads⟩
    obtain ⟨rfl, rfl⟩ := framed.unique framed'
    exact ⟨after, reads⟩
  · rintro ⟨after, reads⟩
    have short : (concat frames).length < offsetSpace :=
      Nat.lt_of_le_of_lt (Nat.le_add_right _ _) framed.short
    have room := (Limits.ample_unbounded short).length_le
    exact ⟨frames, tail, after, framed, room, reads⟩

/-- A message that is read without limits and without a fault says the same if an unknown frame is
added to it, provided that the container stays below 4 GiB, or taken out of it. -/
theorem unknown_frames_are_passed_over {buffer : Bytes}
    (read : run .unbounded buffer = .ok ⟨events, none⟩) :
    ∃ frames tail, Framed buffer frames tail ∧ ∀ others,
      (Extends frames others ∧ (concat others).length + formWidth < offsetSpace) ∨
        Extends others frames →
      run .unbounded (Container.wrap (concat others) ++ tail) = .ok ⟨events, none⟩ ∧
      calls .unbounded (Container.wrap (concat others) ++ tail) = calls .unbounded buffer ∧
      reply .unbounded (Container.wrap (concat others) ++ tail) = reply .unbounded buffer := by
  obtain ⟨frames, tail, after, framed, -, reads⟩ := run_eq_ok_iff.mp read
  refine ⟨frames, tail, framed, fun others change => ?_⟩
  have read' : run .unbounded (Container.wrap (concat others) ++ tail) = .ok ⟨events, none⟩ := by
    rcases change with ⟨added, short⟩ | removed
    · have framed' : Framed (Container.wrap (concat others) ++ tail) others tail := ⟨short, rfl⟩
      exact (run_unbounded_eq_ok_iff framed').mpr ⟨after, added.reads_iff.mpr reads⟩
    · -- Taking a frame out does not make the container longer.
      have short := Nat.lt_of_le_of_lt
        (Nat.add_le_add_right removed.length_concat_le formWidth) framed.short
      have framed' : Framed (Container.wrap (concat others) ++ tail) others tail := ⟨short, rfl⟩
      exact (run_unbounded_eq_ok_iff framed').mpr ⟨after, removed.reads_iff.mp reads⟩
  have same := read'.trans read.symm
  exact ⟨read', calls_eq_of_run_eq same, reply_eq_of_run_eq same⟩

/-- A frame that later versions may put anywhere. -/
def novelFrame : WireFrame := .ofFrame ⟨⟨0x4E, 0x4F, 0x54, 0x45⟩, [1, 2, 3]⟩ (by decide)

/-- A list of one parameter, one byte wide. -/
def slotFrame : WireFrame := .ofFrame ⟨.parm, [5]⟩ (by decide)

/-- A message that makes one call, with these frames before the call and these inside it. -/
def callMessage (before inner : List WireFrame)
    (fits : ([7, 0, 0, 0] ++ concat inner).length < offsetSpace) : List WireFrame :=
  .ofFrame ⟨.cnfg, [1, 1, 0, 0]⟩ (by decide) :: before ++
    [.ofFrame ⟨.call, [7, 0, 0, 0] ++ concat inner⟩ fits]

def plainFrames : List WireFrame := callMessage [] [slotFrame] (by decide)

def novelBetween : List WireFrame := callMessage [novelFrame] [slotFrame] (by decide)

def novelInside : List WireFrame := callMessage [] [slotFrame, novelFrame] (by decide)

def callEvents : List Event :=
  [.configured ⟨.one, .one, .little⟩, .call ⟨⟨.one, .one, .little⟩, 7, [.ofNat 5 1], none⟩]

theorem novel_frames_are_passed_over :
    run .unbounded (Container.wrap (concat plainFrames) ++ [0]) = .ok ⟨callEvents, none⟩ ∧
    run .unbounded (Container.wrap (concat novelBetween) ++ [0]) = .ok ⟨callEvents, none⟩ ∧
    run .unbounded (Container.wrap (concat novelInside) ++ [0]) = .ok ⟨callEvents, none⟩ := by
  have read : run .unbounded (Container.wrap (concat plainFrames) ++ [0]) =
      .ok ⟨callEvents, none⟩ := by decide +kernel
  have framed : Framed (Container.wrap (concat plainFrames) ++ [0]) plainFrames [0] :=
    ⟨by decide, rfl⟩
  obtain ⟨frames, tail, framed', passed⟩ := unknown_frames_are_passed_over read
  obtain ⟨rfl, rfl⟩ := framed.unique framed'
  have between : Extends plainFrames novelBetween :=
    .between [_] [_] ⟨by decide, by decide, by decide, by decide⟩
  have inside : Extends plainFrames novelInside := by
    have parts : Request.Parts ⟨.one, .one, .little⟩ ([7, 0, 0, 0] ++ concat [slotFrame])
        [7, 0, 0, 0] ([slotFrame] ++ []) := ⟨rfl, rfl⟩
    have parts' : Request.Parts ⟨.one, .one, .little⟩
        ([7, 0, 0, 0] ++ concat [slotFrame, novelFrame]) [7, 0, 0, 0]
        ([slotFrame] ++ novelFrame :: []) := ⟨rfl, rfl⟩
    exact .inside [_] [] rfl rfl rfl parts parts' ⟨by decide, by decide⟩
  exact ⟨read, (passed _ (.inl ⟨between, by decide⟩)).1, (passed _ (.inl ⟨inside, by decide⟩)).1⟩

end Message

end Semihosting
