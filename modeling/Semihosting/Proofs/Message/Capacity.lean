import Semihosting.Proofs.Message.Ample

/-!
# How much a message takes up

A message that is read without limits is read under given limits exactly if it takes up no more than
they allow: chunks at each level, calls, and slots in each call, whatever the chunks are and however
the slots are spread over lists. Main result: `limits_bite_at_their_counts`.
-/
namespace Semihosting

open Riff (Chunk Container Frame FourCC WireFrame offsetSpace)

/-! ### Calls -/

namespace Request

def slotsOf (config : Configuration) (frame : WireFrame) : Nat :=
  if frame.tag = .parm then frame.payload.length / config.slotWidth else 0

/-- The slots in the frames inside a call, over all parameter lists. -/
def slotCount (config : Configuration) : List WireFrame → Nat
  | [] => 0
  | frame :: rest => slotsOf config frame + slotCount config rest

@[simp] theorem slotCount_cons (config : Configuration) (frame : WireFrame)
    (rest : List WireFrame) :
    slotCount config (frame :: rest) = slotsOf config frame + slotCount config rest := rfl

variable {config : Configuration} {limits loose : Limits} {request after : Request}

theorem Absorbs.length_parameters {frame : WireFrame}
    (absorbed : Absorbs config limits request (frame.chunkAt 0) after) :
    after.parameters.length = request.parameters.length + slotsOf config frame := by
  cases absorbed with
  | parameters tag _ _ =>
    have tag : frame.tag = .parm := tag
    rw [List.length_append, length_readSlots, slotsOf, if_pos tag]
    rfl
  | data tag _ =>
    have tag : frame.tag = .data := tag
    rw [slotsOf, if_neg (by rw [tag]; decide)]
    rfl
  | skipped notParameters _ =>
    have tag : frame.tag ≠ .parm := notParameters
    rw [slotsOf, if_neg tag]
    rfl

/-- A call has as many parameters as the frames inside it have slots, whatever the limits. -/
theorem length_parameters_of_foldlM {inner : List WireFrame}
    (gathered : (inner.map WireFrame.toFrame).foldlM (absorbFrame config limits) request =
      .ok after) :
    after.parameters.length = request.parameters.length + slotCount config inner := by
  induction inner generalizing request with
  | nil =>
    cases gathered
    rfl
  | cons frame rest ih =>
    rw [List.map_cons, List.foldlM_cons] at gathered
    obtain ⟨middle, first, later⟩ := bind_eq_ok_iff.mp gathered
    have step : Absorbs config limits request (frame.chunkAt 0) middle := absorbs_of_absorb first
    rw [ih later, step.length_parameters, slotCount_cons, Nat.add_assoc]

/-- What is taken in under some limits is taken in under all that have room for the slots. -/
theorem Absorbs.under {chunk : Chunk} (absorbed : Absorbs config loose request chunk after)
    (room : after.parameters.length ≤ limits.maxParameters.toNat) :
    Absorbs config limits request chunk after := by
  cases absorbed with
  | parameters tag whole _ =>
    rw [List.length_append, length_readSlots] at room
    exact .parameters tag whole room
  | data tag vacant => exact .data tag vacant
  | skipped notParameters notData => exact .skipped notParameters notData

theorem foldlM_under {inner : List WireFrame}
    (gathered : (inner.map WireFrame.toFrame).foldlM (absorbFrame config loose) request =
      .ok after)
    (room : after.parameters.length ≤ limits.maxParameters.toNat) :
    (inner.map WireFrame.toFrame).foldlM (absorbFrame config limits) request = .ok after := by
  induction inner generalizing request with
  | nil => exact gathered
  | cons frame rest ih =>
    rw [List.map_cons, List.foldlM_cons] at gathered ⊢
    obtain ⟨middle, first, later⟩ := bind_eq_ok_iff.mp gathered
    -- Slots only accumulate, so there was room for those held so far.
    have grown := length_parameters_of_foldlM later
    have step : Absorbs config limits request (frame.chunkAt 0) middle :=
      (absorbs_of_absorb first).under (by omega)
    exact bind_eq_ok_iff.mpr ⟨middle, absorb_of_absorbs step, ih later⟩

end Request

namespace Message

/-- A call takes up no more than limits allow, under the configuration in effect. -/
def CallWithin (limits : Limits) (config : Option Configuration) (call : WireFrame) : Prop :=
  ∃ known header inner, config = some known ∧
    Request.Parts known call.payload header inner ∧
    inner.length ≤ limits.maxChunks.toNat ∧
    Request.slotCount known inner ≤ limits.maxParameters.toNat

def callCount (frames : List WireFrame) : Nat := frames.countP fun frame => frame.tag = .call

/-- Frames take up no more than limits allow: chunks of any kind at either level, calls, and slots
in each call. -/
structure Within (limits : Limits) (frames : List WireFrame) : Prop where
  chunks : frames.length ≤ limits.maxChunks.toNat
  calls : callCount frames ≤ limits.maxCalls.toNat
  inside : ∀ before call behind, frames = before ++ call :: behind → call.tag = .call →
    CallWithin limits (settled none before) call

variable {limits loose : Limits}

/-! ### What is read is within the limits -/

theorem callWithin_of_decode {config : Configuration} {call : WireFrame} {request : Request}
    (decoded : Request.decode config limits call.payload = .ok request) :
    CallWithin limits (some config) call := by
  obtain ⟨header, inner, opcode, parts, room, -, gathered⟩ :=
    (Request.decode_eq_ok_iff call.fits).mp decoded
  have slots := Request.length_parameters_of_foldlM gathered
  have counted := (Request.admitted_of_decode call.fits decoded).1.counted
  simp only [Request.bare, List.length_nil, Nat.zero_add] at slots
  exact ⟨config, header, inner, rfl, parts, room, slots ▸ counted⟩

theorem Progress.Accepts.callCount {progress after : Progress} {frame : WireFrame}
    {event : Option Event} (accepted : progress.Accepts limits (frame.chunkAt 0) event after) :
    after.calls = progress.calls + Message.callCount [frame] := by
  by_cases tag : frame.tag = .call
  · obtain ⟨_, _, -, -, -, -, rfl⟩ := accepted.of_call tag
    simp [Message.callCount, tag]
  · cases accepted with
    | call called => exact absurd called tag
    | configured | result | error | skipped => simp [Message.callCount, tag]

theorem Reads.callCount {progress after : Progress} {frames : List WireFrame}
    {events : List Event} (reads : Reads limits progress frames events after) :
    after.calls = progress.calls + Message.callCount frames := by
  induction reads with
  | nil => rfl
  | cons accepted _ ih =>
    rw [ih, accepted.callCount, Nat.add_assoc]
    simp only [Message.callCount, List.countP_cons, List.countP_nil]
    omega

theorem Reads.calls_le {progress after : Progress} {frames : List WireFrame}
    {events : List Event} (reads : Reads limits progress frames events after)
    (room : progress.calls ≤ limits.maxCalls.toNat) : after.calls ≤ limits.maxCalls.toNat := by
  induction reads with
  | nil => exact room
  | cons accepted _ ih => exact ih (accepted.calls.2 room)

/-- Every call among frames that are read is within the limits, under what the frames before it
settled. -/
theorem Reads.inside {progress after : Progress} {frames : List WireFrame}
    {events : List Event} (reads : Reads limits progress frames events after)
    {before behind : List WireFrame} {call : WireFrame} (split : frames = before ++ call :: behind)
    (tag : call.tag = .call) :
    CallWithin limits (Message.settled progress.config before) call := by
  subst split
  obtain ⟨_, _, middle, -, front, back⟩ := reads.of_append
  rw [← front.settled]
  cases back with
  | cons accepted _ =>
    obtain ⟨config, request, -, known, decoded, -, -⟩ := accepted.of_call tag
    rw [known]
    exact callWithin_of_decode decoded

theorem Reads.within {after : Progress} {frames : List WireFrame} {events : List Event}
    (reads : Reads limits .start frames events after)
    (room : frames.length ≤ limits.maxChunks.toNat) : Within limits frames where
  chunks := room
  calls := by
    have counted := reads.callCount
    have bounded := reads.calls_le (Nat.zero_le _)
    simp only [Progress.start] at counted
    omega
  inside _ _ _ split tag := reads.inside split tag

/-! ### What is within the limits is read -/

theorem decode_under {config : Configuration} {call : WireFrame} {request : Request}
    (decoded : Request.decode config loose call.payload = .ok request)
    (within : CallWithin limits (some config) call) :
    Request.decode config limits call.payload = .ok request := by
  obtain ⟨header, inner, opcode, parts, -, read, gathered⟩ :=
    (Request.decode_eq_ok_iff call.fits).mp decoded
  obtain ⟨known, other, others, same, parts', room, slots⟩ := within
  cases same
  obtain ⟨rfl, rfl⟩ := parts.unique parts'
  have counted := Request.length_parameters_of_foldlM gathered
  simp only [Request.bare, List.length_nil, Nat.zero_add] at counted
  exact (Request.decode_eq_ok_iff call.fits).mpr
    ⟨header, inner, opcode, parts, room, read, Request.foldlM_under gathered (counted ▸ slots)⟩

theorem Progress.Accepts.under {progress after : Progress} {frame : WireFrame}
    {event : Option Event} (accepted : progress.Accepts loose (frame.chunkAt 0) event after)
    (calls : after.calls ≤ limits.maxCalls.toNat)
    (within : frame.tag = .call → CallWithin limits progress.config frame) :
    progress.Accepts limits (frame.chunkAt 0) event after := by
  cases accepted with
  | configured tag negotiated => exact .configured tag negotiated
  | call tag _ known decoded =>
    have within := within tag
    rw [known] at within
    exact .call tag calls known (decode_under decoded within)
  | result tag known decoded => exact .result tag known decoded
  | error tag decoded => exact .error tag decoded
  | skipped notConfiguration notCall notResult notError =>
    exact .skipped notConfiguration notCall notResult notError

/-- Frames that are read under some limits are read under others that have room for the calls and
for what is inside each. -/
theorem Reads.under {progress after : Progress} {frames : List WireFrame} {events : List Event}
    (reads : Reads loose progress frames events after)
    (calls : after.calls ≤ limits.maxCalls.toNat)
    (inside : ∀ before call behind, frames = before ++ call :: behind → call.tag = .call →
      CallWithin limits (Message.settled progress.config before) call) :
    Reads limits progress frames events after := by
  -- The configuration that a call stands under is settled by the frames from the start on.
  induction reads with
  | nil => exact .nil _
  | @cons progress middle after frame frames _ _ accepted later ih =>
    -- Calls only accumulate, so there was room for those made so far.
    have counted := later.callCount
    refine .cons (accepted.under (by omega) (inside [] frame frames rfl)) (ih calls ?_)
    intro before call behind split tag
    rw [accepted.settle]
    exact inside (frame :: before) call behind (congrArg (frame :: ·) split) tag

theorem Reads.under_of_within {after : Progress} {frames : List WireFrame} {events : List Event}
    (reads : Reads loose .start frames events after) (within : Within limits frames) :
    Reads limits .start frames events after := by
  have counted := reads.callCount
  have calls := within.calls
  simp only [Progress.start] at counted
  exact reads.under (by omega) within.inside

/-! ### Whole messages -/

theorem accepted_iff_within {buffer tail : Bytes} {frames : List WireFrame} {events : List Event}
    {after : Progress} (framed : Framed buffer frames tail)
    (reads : Reads loose .start frames events after) :
    (∃ said, run limits buffer = .ok ⟨said, none⟩) ↔ Within limits frames := by
  constructor
  · rintro ⟨said, read⟩
    obtain ⟨others, _, _, framed', room, reads'⟩ := run_eq_ok_iff.mp read
    obtain ⟨rfl, -⟩ := framed.unique framed'
    exact reads'.within room
  · intro within
    exact ⟨events, run_eq_ok_iff.mpr
      ⟨frames, tail, after, framed, within.chunks, reads.under_of_within within⟩⟩

/-- Without limits nothing that a message comes to is a limit. -/
theorem yielded_unbounded_ne_limit {α : Type} {bound : Bound} {max : Nat} (buffer : Bytes)
    (yield : List Event → α) :
    yielded .unbounded buffer yield ≠ .error (.limitExceeded bound max) := by
  intro limited
  rcases bind_eq_error_iff.mp limited with refused | ⟨trail, read, ended⟩
  · rw [run_eq] at refused
    exact Container.read_ne_limit buffer (map_eq_error_iff.mp refused)
  · have opened := read
    rw [run_eq] at opened
    obtain ⟨container, opened, -⟩ := map_eq_ok_iff.mp opened
    obtain ⟨size, small, -⟩ := Container.size_of_read opened
    exact run_ne_limit opened (Limits.ample_unbounded (by omega)) read
      (Trail.conclude_eq_error_iff.mp ended)

/-- Without limits no message, well-formed or not, is refused for a limit. A message that is read
without limits is read under given ones exactly if its container and each of its calls hold at most
as many chunks as they allow, of whatever kind, the message at most as many calls, and each call at
most as many slots over all its parameter lists. -/
theorem limits_bite_at_their_counts :
    (∀ buffer bound max,
      calls .unbounded buffer ≠ .error (.limitExceeded bound max) ∧
      reply .unbounded buffer ≠ .error (.limitExceeded bound max)) ∧
    ∀ buffer,
      ((∃ made, calls .unbounded buffer = .ok made) ∨
        ∃ said, reply .unbounded buffer = .ok said) →
      ∃ frames tail, Framed buffer frames tail ∧ ∀ limits,
        ((∃ made, calls limits buffer = .ok made) ↔ Within limits frames) ∧
        ((∃ said, reply limits buffer = .ok said) ↔ Within limits frames) := by
  constructor
  · intro buffer bound max
    rw [calls_eq_yielded, reply_eq_yielded]
    exact ⟨yielded_unbounded_ne_limit buffer callsOf, yielded_unbounded_ne_limit buffer replyOf⟩
  · intro buffer accepted
    rw [calls_accepted_iff, reply_accepted_iff, or_self] at accepted
    obtain ⟨events, read⟩ := accepted
    obtain ⟨frames, tail, after, framed, -, reads⟩ := run_eq_ok_iff.mp read
    -- The frames are those of the unbounded run, so they are the same for all limits.
    refine ⟨frames, tail, framed, fun limits => ?_⟩
    rw [calls_accepted_iff, reply_accepted_iff]
    exact ⟨accepted_iff_within framed reads, accepted_iff_within framed reads⟩

/-- A call of four chunks, one of them unknown and one an empty list, with two slots. -/
def measuredCall : Bytes :=
  [7, 0, 0, 0] ++ [Frame.mk .parm [1], ⟨.erro, []⟩, ⟨.parm, [2]⟩, ⟨.parm, []⟩].flatMap Frame.bytes

/-- A message of three chunks that makes the measured call. -/
def measuredMessage : Bytes :=
  Container.wrap ([Frame.mk .cnfg [1, 1, 0, 0], ⟨.parm, [5]⟩, ⟨.call, measuredCall⟩].flatMap
    Frame.bytes)

theorem limits_bite_measured :
    (∃ made, calls .unbounded measuredMessage = .ok made) ∧
    ∃ frames tail, Framed measuredMessage frames tail ∧ Within ⟨4, 1, 2⟩ frames ∧
      ¬Within ⟨3, 1, 2⟩ frames ∧ ¬Within ⟨4, 0, 2⟩ frames ∧ ¬Within ⟨4, 1, 1⟩ frames := by
  have made (limits : Limits)
      (read : calls limits measuredMessage =
        .ok [⟨⟨.one, .one, .little⟩, 7, [.ofNat 1 1, .ofNat 2 1], none⟩]) :
      ∃ made, calls limits measuredMessage = .ok made := ⟨_, read⟩
  have refused (limits : Limits) (bound : Bound) (max : Nat)
      (limited : calls limits measuredMessage = .error (.limitExceeded bound max)) :
      ¬∃ made, calls limits measuredMessage = .ok made := by
    rintro ⟨made, read⟩
    rw [limited] at read
    cases read
  have accepted := made .unbounded (by decide +kernel)
  obtain ⟨frames, tail, framed, exact⟩ := limits_bite_at_their_counts.2 _ (Or.inl accepted)
  refine ⟨accepted, frames, tail, framed, ?_, ?_, ?_, ?_⟩
  · exact (exact ⟨4, 1, 2⟩).1.mp (made _ (by decide +kernel))
  · exact mt (exact ⟨3, 1, 2⟩).1.mpr (refused _ .chunks 3 (by decide +kernel))
  · exact mt (exact ⟨4, 0, 2⟩).1.mpr (refused _ .calls 0 (by decide +kernel))
  · exact mt (exact ⟨4, 1, 1⟩).1.mpr (refused _ .parameters 1 (by decide +kernel))

end Message

end Semihosting
