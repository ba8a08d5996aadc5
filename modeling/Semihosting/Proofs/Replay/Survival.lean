import Semihosting.Proofs.Message.RoundTrip
import Semihosting.Proofs.Request.Reencoding
import Semihosting.Replay.Outcome

/-!
# Calls survive a replay

A call that was read from a message can be written on its own, and what is written takes up no more
chunks, calls, slots and bytes than the message did, so the limits that admitted the message admit
it. Main result: no replay is inconsistent (`replay_is_consistent`).
-/
namespace Semihosting

open Riff (Chunk Container Frame Walk offsetSpace)

theorem Configuration.payloadWidth_le_of_negotiate {chunk : Chunk} {config : Configuration}
    (negotiated : Configuration.negotiate chunk = .ok config) : payloadWidth ≤ chunk.size := by
  unfold negotiate at negotiated
  split at negotiated
  · cases negotiated
  · split at negotiated
    next payload =>
      rw [Chunk.size, payload]
      simp only [List.length_cons, payloadWidth]
      omega
    · cases negotiated

/-- Two chunks, one before the other, take up no more than all chunks do. -/
theorem Riff.Chunk.span_add_span_le_extent {before : List Chunk} {source : Chunk}
    (member : source ∈ before) (chunk : Chunk) (behind : List Chunk) :
    Frame.span source.size + Frame.span chunk.size ≤
        Chunk.extent (before ++ chunk :: behind) ∧
      2 ≤ (before ++ chunk :: behind).length := by
  obtain ⟨front, middle, rfl⟩ := List.append_of_mem member
  simp only [Chunk.extent_append, Chunk.extent_cons, List.length_append, List.length_cons]
  omega

namespace Message

theorem call_mem_of_callsOf {events : List Event} {call : Call} (member : call ∈ callsOf events) :
    .call call ∈ events := by
  obtain ⟨event, found, same⟩ := List.mem_filterMap.mp member
  cases event with
  | call made =>
    cases same
    exact found
  | configured _ | response _ => cases same

/-- What a call that was read says about the limits, and how much it takes to write it. -/
theorem admitted_of_calls {limits : Limits} {input : Bytes} {made : List Call} {call : Call}
    (decoded : calls limits input = .ok made) (member : call ∈ made) :
    call.request.Admitted call.config limits ∧ 2 ≤ limits.maxChunks.toNat ∧
      1 ≤ limits.maxCalls.toNat ∧ requestSize call.config call.request < offsetSpace := by
  rw [calls_eq] at decoded
  obtain ⟨container, opened, concluded⟩ := bind_eq_ok_iff.mp decoded
  obtain ⟨-, rfl⟩ := Trail.conclude_eq_ok_iff.mp concluded
  obtain ⟨size, small, -⟩ := Container.size_of_read opened
  -- The call has a chunk of its own, behind the one that announced its configuration.
  obtain ⟨before, chunk, behind, split, read, one, announced⟩ :=
    exists_chunk_of_call Progress.start (call_mem_of_callsOf member)
  obtain ⟨source, earlier, negotiated⟩ :=
    announced.resolve_left (Option.some_ne_none call.config).symm
  have short : container.body.length < offsetSpace := by omega
  obtain ⟨extent, count⟩ := Walk.extent_trail_le limits.maxChunks short
  obtain ⟨taken, two⟩ := Chunk.span_add_span_le_extent earlier chunk behind
  rw [split] at extent count
  have announcement := Frame.span_mono (Configuration.payloadWidth_le_of_negotiate negotiated)
  have fits : chunk.payload.length < offsetSpace := by
    simp only [Frame.span, Chunk.size] at taken
    omega
  obtain ⟨admitted, canonical⟩ := Request.admitted_of_decode fits read
  have payload : Frame.span (call.request.payloadSize call.config) ≤ Frame.span chunk.size :=
    Frame.span_mono canonical
  -- These two chunks already take up as much as the canonical message.
  refine ⟨admitted, Nat.le_trans two count, one, ?_⟩
  rw [requestSize]
  omega

/-- A call that was read can be written, and is read again from what is written. -/
theorem exists_message_of_calls {limits : Limits} {input : Bytes} {made : List Call} {call : Call}
    (decoded : calls limits input = .ok made) (member : call ∈ made) :
    ∃ message, ofRequest call.config call.request = .ok message ∧
      calls limits message = .ok [call] := by
  obtain ⟨admitted, chunks, one, short⟩ := admitted_of_calls decoded member
  have read := Request.decode_payload admitted.opcode (payloadSize_lt short) chunks admitted.counted
  rw [Request.slotted_eq_self admitted.widths] at read
  exact ⟨_, ofRequest_eq_ok admitted.fits short, calls_wrap_requestBody short chunks one read⟩

end Message

namespace Replay

theorem survives_of_calls {limits : Limits} {input : Bytes} {made : List Call} {call : Call}
    (decoded : Message.calls limits input = .ok made) (member : call ∈ made) :
    call.survives limits = true := by
  obtain ⟨message, written, read⟩ := Message.exists_message_of_calls decoded member
  simp only [Call.survives, written, read, decide_true]

/-- Replaying an input shows how many calls it holds if it is read as a message, and otherwise the
fault for which it is refused. Every call in it is written again without a fault, and reading what
is written, under the same limits, gives that call and no other. -/
theorem replay_is_consistent (limits : Limits) (input : Bytes) :
    (Outcome.ofInput limits input =
      match Message.calls limits input with
      | .ok made => .accepted made.length
      | .error fault => .rejected fault) ∧
    (∀ made, Message.calls limits input = .ok made → ∀ call ∈ made,
      ∃ message, Message.ofRequest call.config call.request = .ok message ∧
        Message.calls limits message = .ok [call]) ∧
    ∀ opcode, Outcome.ofInput limits input ≠ .inconsistent opcode := by
  have outcome : Outcome.ofInput limits input =
      match Message.calls limits input with
      | .ok made => .accepted made.length
      | .error fault => .rejected fault := by
    cases decoded : Message.calls limits input with
    | error fault => simp only [Outcome.ofInput, decoded]
    | ok made =>
      -- Every call survives, so none is found that does not.
      have none : made.find? (fun call => !call.survives limits) = none := by
        rw [List.find?_eq_none]
        intro call member
        simp only [survives_of_calls decoded member, Bool.not_true, Bool.false_eq_true,
          not_false_eq_true]
      simp only [Outcome.ofInput, decoded, none]
  refine ⟨outcome, ?_, ?_⟩
  · intro made decoded call member
    exact Message.exists_message_of_calls decoded member
  · intro opcode
    rw [outcome]
    cases Message.calls limits input <;> exact Outcome.noConfusion

/-- A call with its parameters in two lists, a chunk that means nothing between them, bytes behind
its opcode and an empty data block. -/
def scatteredCall : Bytes :=
  [0, 5, 9, 9] ++ [Frame.mk .parm [0, 0, 0, 1], ⟨.erro, [8]⟩, ⟨.parm, [0, 0, 0, 2]⟩,
    ⟨.data, []⟩].flatMap Frame.bytes

/-- A message that makes the scattered call and another one under a new configuration. -/
def scatteredInput : Bytes :=
  Container.wrap ([Frame.mk .cnfg [2, 4, 1, 9], ⟨.call, scatteredCall⟩, ⟨.cnfg, [1, 1, 0, 0]⟩,
    ⟨.call, [7, 0, 0, 0]⟩].flatMap Frame.bytes)

def gatheredCall : Call :=
  ⟨⟨.two, .four, .big⟩, 5, [.ofNat 1 4, .ofNat 2 4], some []⟩

theorem replay_of_scattered :
    Message.calls ⟨4, 2, 2⟩ scatteredInput =
      .ok [gatheredCall, ⟨⟨.one, .one, .little⟩, .bare 7⟩] ∧
    Outcome.ofInput ⟨4, 2, 2⟩ scatteredInput = .accepted 2 ∧
    ∃ message, Message.ofRequest gatheredCall.config gatheredCall.request = .ok message ∧
      Message.calls ⟨4, 2, 2⟩ message = .ok [gatheredCall] := by
  have decoded : Message.calls ⟨4, 2, 2⟩ scatteredInput =
      .ok [gatheredCall, ⟨⟨.one, .one, .little⟩, .bare 7⟩] := by decide +kernel
  obtain ⟨outcome, calls, -⟩ := replay_is_consistent ⟨4, 2, 2⟩ scatteredInput
  rw [decoded] at outcome
  exact ⟨decoded, outcome, calls _ decoded gatheredCall List.mem_cons_self⟩

end Replay

end Semihosting
