import Semihosting.Proofs.Message.Run
import Semihosting.Proofs.Riff.Enclosure

/-!
# Messages that are read to their end

A message that is read without a fault is a container of frames, and each frame is accepted in turn
under what the frames before it said. A call in it is again a header and a sequence of frames. Main
statements: a run without a fault is exactly such a reading of exactly these frames
(`run_eq_ok_iff`), and likewise for calls (`Request.decode_eq_ok_iff`).
-/
namespace Semihosting

open Riff (Chunk Container Frame FourCC Walk WireFrame formWidth offsetSpace)
open Riff.WireFrame (concat chunksFrom)

/-! ### Calls -/

namespace Request

/-- The payload of a call, taken apart into its header and the frames behind it. -/
structure Parts (config : Configuration) (payload header : Bytes) (inner : List WireFrame) :
    Prop where
  width : header.length = config.callHeaderWidth
  whole : payload = header ++ concat inner

theorem Parts.unique {config : Configuration} {payload header other : Bytes}
    {inner others : List WireFrame} (parts : Parts config payload header inner)
    (parts' : Parts config payload other others) : header = other ∧ inner = others := by
  have same : header ++ concat inner = other ++ concat others := by
    rw [← parts.whole, parts'.whole]
  obtain ⟨headers, regions⟩ := List.append_inj same (by rw [parts.width, parts'.width])
  exact ⟨headers, WireFrame.concat_injective regions⟩

theorem readOpcode_append {config : Configuration} {header : Bytes}
    (width : header.length = config.callHeaderWidth) (rest : Bytes) :
    readOpcode config (header ++ rest) = readOpcode config header := by
  have inside := config.intSize_le_callHeaderWidth
  have front : (header ++ rest).take config.intSize.bytes = header.take config.intSize.bytes :=
    List.take_append_of_le_length (by omega)
  simp only [readOpcode, front]

/-- Behind the opcode in its header, a call is read by folding the walk over its chunks. -/
theorem decode_append {config : Configuration} {limits : Limits} {header : Bytes}
    (width : header.length = config.callHeaderWidth) (region : Bytes) :
    decode config limits (header ++ region) =
      (readOpcode config header).bind fun opcode =>
        (Walk.start region limits.maxChunks).fold (absorb config limits) (bare opcode) := by
  have enough : ¬(header ++ region).length < config.callHeaderWidth := by
    rw [List.length_append]
    omega
  rw [decode, if_neg enough, readOpcode_append width, List.drop_left' width]

/-- A call is read exactly if it is a header with an opcode and frames that are taken in in turn. -/
theorem decode_eq_ok_iff {config : Configuration} {limits : Limits} {payload : Bytes}
    {request : Request} (short : payload.length < offsetSpace) :
    decode config limits payload = .ok request ↔
      ∃ header inner opcode, Parts config payload header inner ∧
        inner.length ≤ limits.maxChunks.toNat ∧ readOpcode config header = .ok opcode ∧
        (inner.map WireFrame.toFrame).foldlM (absorbFrame config limits) (bare opcode) =
          .ok request := by
  -- What a chunk adds does not depend on where it stands.
  have blind (state : Request) (frame : Frame) (offset : Nat) :
      state.absorb config limits ⟨frame.tag, offset, frame.payload⟩ =
        absorbFrame config limits state frame := rfl
  constructor
  · intro decoded
    by_cases few : payload.length < config.callHeaderWidth
    · rw [decode, if_pos few] at decoded
      cases decoded
    · have width : (payload.take config.callHeaderWidth).length = config.callHeaderWidth :=
        List.length_take_of_le (Nat.le_of_not_lt few)
      have split := List.take_append_drop config.callHeaderWidth payload
      have region : (payload.drop config.callHeaderWidth).length < offsetSpace := by
        rw [List.length_drop]
        omega
      rw [← split, decode_append width] at decoded
      obtain ⟨opcode, read, folded⟩ := bind_eq_ok_iff.mp decoded
      obtain ⟨inner, frames, room, gathered⟩ := (Walk.fold_eq_ok_iff blind region).mp folded
      rw [frames] at split
      exact ⟨_, inner, opcode, ⟨width, split.symm⟩, room, read, gathered⟩
  · rintro ⟨header, inner, opcode, ⟨width, rfl⟩, room, read, gathered⟩
    rw [List.length_append] at short
    rw [decode_append width, read]
    exact (Walk.fold_eq_ok_iff blind (by omega)).mpr ⟨inner, rfl, room, gathered⟩

end Request

namespace Message

/-! ### Frames in order -/

theorem Progress.Accepts.of_call {limits : Limits} {progress after : Progress} {chunk : Chunk}
    {event : Option Event} (accepted : progress.Accepts limits chunk event after)
    (tag : chunk.tag = .call) :
    ∃ config request, progress.calls < limits.maxCalls.toNat ∧ progress.config = some config ∧
      Request.decode config limits chunk.payload = .ok request ∧
      event = some (.call ⟨config, request⟩) ∧
      after = { progress with calls := progress.calls + 1 } := by
  cases accepted with
  | call _ room known decoded => exact ⟨_, _, room, known, decoded, rfl, rfl⟩
  | configured other => exact absurd (tag.symm.trans other) (by decide)
  | result other => exact absurd (tag.symm.trans other) (by decide)
  | error other => exact absurd (tag.symm.trans other) (by decide)
  | skipped _ other => exact absurd tag other

/-- Frames that are accepted one after another, with the events they stand for. -/
inductive Reads (limits : Limits) : Progress → List WireFrame → List Event → Progress → Prop
  | nil (progress) : Reads limits progress [] [] progress
  | cons {progress middle after frame frames event events} :
      progress.Accepts limits (frame.chunkAt 0) event middle →
      Reads limits middle frames events after →
      Reads limits progress (frame :: frames) (event.toList ++ events) after

theorem Reads.append {limits : Limits} {progress middle after : Progress}
    {front back : List WireFrame} {first second : List Event}
    (reads : Reads limits progress front first middle)
    (reads' : Reads limits middle back second after) :
    Reads limits progress (front ++ back) (first ++ second) after := by
  induction reads with
  | nil => exact reads'
  | cons accepted _ ih =>
    rw [List.append_assoc]
    exact .cons accepted (ih reads')

/-- What is read of two lists of frames is read of the first and then, from where that ended, of the
second. -/
theorem Reads.of_append {limits : Limits} {progress after : Progress}
    {front back : List WireFrame} {events : List Event}
    (reads : Reads limits progress (front ++ back) events after) :
    ∃ first second middle, events = first ++ second ∧
      Reads limits progress front first middle ∧ Reads limits middle back second after := by
  induction front generalizing progress events with
  | nil => exact ⟨[], events, progress, rfl, .nil progress, reads⟩
  | cons frame front ih =>
    cases reads with
    | cons accepted later =>
      obtain ⟨first, second, middle, rfl, reads, reads'⟩ := ih later
      exact ⟨_, second, middle, (List.append_assoc _ _ _).symm, .cons accepted reads, reads'⟩

theorem Event.before_eq_iff {event : Option Event} {rest : Trail Event} {events : List Event} :
    Event.before event rest = ⟨events, none⟩ ↔
      ∃ later, rest = ⟨later, none⟩ ∧ events = event.toList ++ later := by
  obtain ⟨items, fault⟩ := rest
  constructor
  · intro same
    cases event with
    | none => exact ⟨events, same, rfl⟩
    | some event =>
      cases same
      exact ⟨items, rfl, rfl⟩
  · rintro ⟨later, same, rfl⟩
    cases same
    cases event <;> rfl

/-- The transcript of frames has no fault exactly if they are accepted in turn. -/
theorem transcript_eq_iff {limits : Limits} {frames : List WireFrame} {events : List Event}
    (progress : Progress) (offset : Nat) :
    transcript limits progress.config progress.calls (chunksFrom offset frames) none =
        ⟨events, none⟩ ↔
      ∃ after, Reads limits progress frames events after := by
  induction frames generalizing progress offset events with
  | nil =>
    constructor
    · intro same
      cases same
      exact ⟨progress, .nil progress⟩
    · rintro ⟨after, reads⟩
      cases reads
      rfl
  | cons frame frames ih =>
    -- A chunk means the same wherever it stands.
    have blind : progress.accept limits (frame.chunkAt offset) =
        progress.accept limits (frame.chunkAt 0) := rfl
    rw [WireFrame.chunksFrom_cons, transcript_cons, blind]
    constructor
    · intro same
      cases outcome : progress.accept limits (frame.chunkAt 0) with
      | error fault => simp [outcome, Trail.broken] at same
      | ok pair =>
        obtain ⟨event, middle⟩ := pair
        simp only [outcome] at same
        obtain ⟨later, rest, rfl⟩ := Event.before_eq_iff.mp same
        obtain ⟨after, reads⟩ := (ih middle _).mp rest
        exact ⟨after, .cons (Progress.accepts_of_accept outcome) reads⟩
    · rintro ⟨after, reads⟩
      cases reads with
      | cons accepted later =>
        rw [Progress.accept_of_accepts accepted]
        exact Event.before_eq_iff.mpr ⟨_, (ih _ _).mpr ⟨after, later⟩, rfl⟩

theorem fault_of_transcript {limits : Limits} {chunks : List Chunk} {fault : Option Fault}
    (progress : Progress)
    (finished : (transcript limits progress.config progress.calls chunks fault).fault = none) :
    fault = none := by
  induction chunks generalizing progress with
  | nil => exact finished
  | cons chunk rest ih =>
    rw [transcript_cons] at finished
    cases outcome : progress.accept limits chunk with
    | error fault => simp [outcome, Trail.broken] at finished
    | ok pair =>
      obtain ⟨event, after⟩ := pair
      rw [outcome] at finished
      cases event with
      | none => exact ih after finished
      | some event => exact ih after finished

/-! ### Whole messages -/

/-- A buffer that is a container of some frames, of less than 4 GiB, and whatever follows it. -/
structure Framed (buffer : Bytes) (frames : List WireFrame) (tail : Bytes) : Prop where
  short : (concat frames).length + formWidth < offsetSpace
  whole : buffer = Container.wrap (concat frames) ++ tail

theorem Framed.read {buffer tail : Bytes} {frames : List WireFrame}
    (framed : Framed buffer frames tail) :
    Container.read buffer = .ok ⟨(concat frames).length + formWidth, concat frames⟩ := by
  rw [framed.whole]
  exact Container.read_wrap tail framed.short

/-- A message is framed in one way at most. -/
theorem Framed.unique {buffer tail tail' : Bytes} {frames others : List WireFrame}
    (framed : Framed buffer frames tail) (framed' : Framed buffer others tail') :
    frames = others ∧ tail = tail' := by
  have read := framed.read
  rw [framed'.read] at read
  have frames : frames = others :=
    WireFrame.concat_injective (Container.mk.inj (Except.ok.inj read)).2.symm
  subst frames
  have same : Container.wrap (concat frames) ++ tail = Container.wrap (concat frames) ++ tail' := by
    rw [← framed.whole, framed'.whole]
  exact ⟨rfl, List.append_cancel_left same⟩

/-- A run has no fault exactly if the buffer is a container of frames that are accepted in turn. -/
theorem run_eq_ok_iff {limits : Limits} {buffer : Bytes} {events : List Event} :
    run limits buffer = .ok ⟨events, none⟩ ↔
      ∃ frames tail after, Framed buffer frames tail ∧
        frames.length ≤ limits.maxChunks.toNat ∧ Reads limits .start frames events after := by
  rw [run_eq]
  constructor
  · intro read
    obtain ⟨container, opened, finished⟩ := map_eq_ok_iff.mp read
    obtain ⟨size, small, -⟩ := Container.size_of_read opened
    obtain ⟨tail, whole⟩ := Container.eq_of_read opened
    have short : container.body.length < offsetSpace := by omega
    -- A fault of the walk would be the fault of the run.
    have walked := fault_of_transcript Progress.start (congrArg Trail.fault finished)
    obtain ⟨frames, body, room⟩ := (Walk.fault_trail_eq_none_iff short).mp walked
    rw [body] at finished whole short
    rw [Walk.trail_start_concat short room] at finished
    obtain ⟨after, reads⟩ := (transcript_eq_iff Progress.start 0).mp finished
    exact ⟨frames, tail, after, ⟨by rw [← body, ← size]; exact small, whole⟩, room, reads⟩
  · rintro ⟨frames, tail, after, framed, room, reads⟩
    have short := framed.short
    rw [framed.read]
    simp only [Except.map]
    rw [Walk.trail_start_concat (by omega) room]
    exact congrArg Except.ok ((transcript_eq_iff Progress.start 0).mpr ⟨after, reads⟩)

/-! ### The configuration in effect -/

def settle (config : Option Configuration) (frame : WireFrame) : Option Configuration :=
  if frame.tag = .cnfg then
    match Configuration.negotiate (frame.chunkAt 0) with
    | .ok announced => some announced
    -- A configuration that is refused ends the message.
    | .error _ => config
  else config

def settled (config : Option Configuration) (frames : List WireFrame) : Option Configuration :=
  frames.foldl settle config

theorem Progress.Accepts.settle {limits : Limits} {progress after : Progress} {frame : WireFrame}
    {event : Option Event} (accepted : progress.Accepts limits (frame.chunkAt 0) event after) :
    after.config = Message.settle progress.config frame := by
  cases accepted with
  | configured tag negotiated =>
    have tag : frame.tag = .cnfg := tag
    rw [Message.settle, if_pos tag, negotiated]
  | call tag _ _ _ =>
    have tag : frame.tag = .call := tag
    rw [Message.settle, if_neg (by rw [tag]; decide)]
  | result tag _ _ =>
    have tag : frame.tag = .retn := tag
    rw [Message.settle, if_neg (by rw [tag]; decide)]
  | error tag _ =>
    have tag : frame.tag = .erro := tag
    rw [Message.settle, if_neg (by rw [tag]; decide)]
  | skipped notConfiguration _ _ _ =>
    have tag : frame.tag ≠ .cnfg := notConfiguration
    rw [Message.settle, if_neg tag]

/-- The configuration behind frames is the last one that they negotiate. -/
theorem Reads.settled {limits : Limits} {progress after : Progress} {frames : List WireFrame}
    {events : List Event} (reads : Reads limits progress frames events after) :
    after.config = Message.settled progress.config frames := by
  induction reads with
  | nil => rfl
  | cons accepted _ ih =>
    rw [ih, accepted.settle]
    rfl

end Message

end Semihosting
