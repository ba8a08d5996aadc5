import Mathlib.Data.List.Forall2
import Semihosting.Proofs.Message.Capacity
import Semihosting.Proofs.Replay.Survival

/-!
# Calls written anew

A call that was read is written in one canonical shape, whatever chunks it was made of. No chunk
gives rise to more than one canonical chunk (`Request.Absorbs.length_frames_le`), and the
configuration that a call stands under was announced in the same message. Main result: what is
written is no longer than the message it came from, and the chunk of the call in it is no longer and
holds no more chunks than the one the call was read from (`rewriting_never_grows`).
-/
namespace Semihosting

open Riff (Chunk Container Frame Header WireFrame formWidth offsetSpace)
open Riff.WireFrame (concat)

/-! ### Chunks inside a call -/

namespace Request

variable {config : Configuration} {limits : Limits} {request after : Request}

theorem length_parameterFrames_le (config : Configuration) (parameters : List Parameter) :
    (parameterFrames config parameters).length ≤ 1 := by
  cases parameters with
  | nil => exact Nat.zero_le 1
  | cons => exact Nat.le_refl 1

/-- A chunk gives rise to one canonical chunk at most. -/
theorem Absorbs.length_frames_le {chunk : Chunk}
    (absorbed : Absorbs config limits request chunk after) :
    (frames config after).length ≤ (frames config request).length + 1 := by
  simp only [frames, List.length_append]
  cases absorbed with
  | parameters =>
    have one := length_parameterFrames_le config
      (request.parameters ++ readSlots config chunk.payload)
    dsimp only
    omega
  | data _ vacant =>
    rw [vacant]
    exact Nat.le_refl _
  | skipped => exact Nat.le_succ _

/-- Each frame that was gathered adds a frame to the canonical form at most. -/
theorem length_frames_le_of_foldlM {inner : List WireFrame}
    (gathered : (inner.map WireFrame.toFrame).foldlM (absorbFrame config limits) request =
      .ok after) :
    (frames config after).length ≤ (frames config request).length + inner.length := by
  induction inner generalizing request with
  | nil =>
    cases gathered
    exact Nat.le_refl _
  | cons frame rest ih =>
    rw [List.map_cons, List.foldlM_cons] at gathered
    obtain ⟨middle, first, later⟩ := bind_eq_ok_iff.mp gathered
    have step : Absorbs config limits request (frame.chunkAt 0) middle := absorbs_of_absorb first
    have grown := step.length_frames_le
    have others := ih later
    rw [List.length_cons]
    omega

/-- The canonical payload holds no more chunks than the payload a request was read from. -/
theorem exists_parts_of_decode {source : WireFrame}
    (decoded : decode config limits source.payload = .ok request) :
    ∃ header inner header' inner', Parts config source.payload header inner ∧
      Parts config (payload config request) header' inner' ∧ inner'.length ≤ inner.length := by
  obtain ⟨header, inner, opcode, parts, -, -, gathered⟩ := (decode_eq_ok_iff source.fits).mp decoded
  have fewer := length_frames_le_of_foldlM gathered
  have size := (admitted_of_decode source.fits decoded).2
  -- The canonical payload is short because the payload it comes from is.
  have short : (body config request).length < offsetSpace := by
    have fits := source.fits
    rw [payloadSize] at size
    rw [length_body]
    omega
  obtain ⟨wires, same, bytes⟩ := WireFrame.exists_wires short
  have parts' : Parts config (payload config request) (Request.header config request.opcode)
      wires := ⟨length_header _ _, by rw [bytes, payload, body]⟩
  refine ⟨header, inner, _, wires, parts, parts', ?_⟩
  rw [← same, List.length_map] at fewer
  have none : (frames config (bare opcode)).length = 0 := rfl
  omega

end Request

namespace Message

variable {limits : Limits} {progress after : Progress} {frames : List WireFrame}
  {events : List Event}

/-- A call was read from a frame, for which there was room beside an announcement. -/
structure ReadFrom (limits : Limits) (room : Nat) (source : WireFrame) (call : Call) : Prop where
  decoded : Request.decode call.config limits source.payload = .ok call.request
  beside : Frame.span Configuration.payloadWidth + Frame.span source.payload.length ≤ room

/-- The calls among the events are those in the frames of calls, one for one. -/
theorem Reads.readFrom (spent : Nat) (reads : Reads limits progress frames events after)
    (announced : ∀ config, progress.config = some config →
      Frame.span Configuration.payloadWidth ≤ spent) :
    List.Forall₂ (ReadFrom limits (spent + (concat frames).length))
      (frames.filter fun frame => frame.tag = .call) (callsOf events) := by
  induction reads generalizing spent with
  | nil => exact .nil
  | @cons progress middle after frame frames event events accepted _ ih =>
    have length : frame.bytes.length = Frame.span frame.payload.length := frame.length_bytes
    have total : spent + frame.bytes.length + (concat frames).length =
        spent + (concat (frame :: frames)).length := by
      rw [WireFrame.concat_cons, List.length_append, Nat.add_assoc]
    -- Once there is a configuration in effect, some frame before has announced it and has paid for
    -- an announcement in the rewritten message.
    have later := ih (spent + frame.bytes.length) (by
      intro config known
      rcases accepted.config known with earlier | negotiated
      · have paid := announced config earlier
        omega
      · have size := Frame.span_mono (Configuration.payloadWidth_le_of_negotiate negotiated)
        rw [length]
        exact Nat.le_trans size (Nat.le_add_left _ _))
    rw [total] at later
    by_cases tag : frame.tag = .call
    · obtain ⟨config, request, -, known, decoded, rfl, rfl⟩ := accepted.of_call tag
      rw [List.filter_cons_of_pos (by simpa using tag)]
      refine .cons ⟨decoded, ?_⟩ later
      have paid := announced config known
      omega
    · rw [List.filter_cons_of_neg (by simpa using tag)]
      cases accepted with
      | call called => exact absurd called tag
      | configured | result | error | skipped => exact later

/-- A message and the chunk of the call in it, as a call is written that was read from a frame of a
container of the given size. -/
structure Rewritten (size : Nat) (source : WireFrame) (call : Call) (message : Bytes)
    (rewritten : WireFrame) : Prop where
  written : ofRequest call.config call.request = .ok message
  message_le : message.length ≤ Header.width + size
  tag : rewritten.tag = .call
  framed : ∃ announcement, announcement.tag = .cnfg ∧ Framed message [announcement, rewritten] []
  payload_le : rewritten.payload.length ≤ source.payload.length
  span_le : rewritten.bytes.length ≤ source.bytes.length
  chunks_le : ∃ header inner header' inner', Request.Parts call.config source.payload header inner ∧
    Request.Parts call.config rewritten.payload header' inner' ∧ inner'.length ≤ inner.length

theorem framed_requestBody {config : Configuration} {request : Request}
    (short : requestSize config request < offsetSpace)
    (fits : (request.payload config).length < offsetSpace) :
    ∃ announcement, announcement.tag = .cnfg ∧
      Framed (Container.wrap (requestBody config request))
        [announcement, .ofFrame ⟨.call, request.payload config⟩ fits] [] := by
  have fits' : config.payload.length < offsetSpace := by
    rw [Configuration.length_payload]
    decide
  have whole : concat [.ofFrame ⟨.cnfg, config.payload⟩ fits',
      .ofFrame ⟨.call, request.payload config⟩ fits] = requestBody config request := rfl
  refine ⟨.ofFrame ⟨.cnfg, config.payload⟩ fits', rfl, ?_, ?_⟩
  · rw [whole, length_requestBody]
    exact short
  · rw [whole, List.append_nil]

/-- A call is written anew in the room that there was for it. -/
theorem ReadFrom.rewritten {room : Nat} {source : WireFrame} {call : Call}
    (origin : ReadFrom limits room source call) (short : room + formWidth < offsetSpace) :
    ∃ message rewritten, Rewritten (room + formWidth) source call message rewritten := by
  obtain ⟨admitted, canonical⟩ := Request.admitted_of_decode source.fits origin.decoded
  have size : requestSize call.config call.request ≤ room + formWidth := by
    have beside := origin.beside
    have span := Frame.span_mono canonical
    rw [requestSize]
    omega
  have short' : requestSize call.config call.request < offsetSpace := Nat.lt_of_le_of_lt size short
  have fits : (call.request.payload call.config).length < offsetSpace := by
    rw [Request.length_payload]
    exact payloadSize_lt short'
  -- Message and chunk are the canonical ones; what is left to show is that they are no longer.
  refine ⟨_, .ofFrame ⟨.call, call.request.payload call.config⟩ fits,
    ofRequest_eq_ok admitted.fits short', ?_, rfl, framed_requestBody short' fits, ?_, ?_,
    Request.exists_parts_of_decode origin.decoded⟩
  · have body := length_requestBody call.config call.request
    have around : Container.headerWidth = Header.width + formWidth := rfl
    rw [Container.length_wrap]
    omega
  · exact Nat.le_trans (Nat.le_of_eq (Request.length_payload _ _)) canonical
  · have span := Frame.span_mono canonical
    have length := source.length_bytes
    simp only [WireFrame.bytes_ofFrame, Frame.length_bytes, Request.length_payload]
    simp only [Frame.span] at span
    omega

/-- A call was read from a frame and is written anew in no more than the container it came in. -/
def RewrittenFrom (limits : Limits) (size : Nat) (source : WireFrame) (call : Call) : Prop :=
  Request.decode call.config limits source.payload = .ok call.request ∧
    ∃ message rewritten, Rewritten size source call message rewritten

/-- Writing a call anew never takes more than the message it was read from. The calls of a message
that is read are those in its frames of calls, one for one, and each is written without a fault, in
a message that is no longer than the header and the declared size of the container and in which the
chunk of the call is no longer, and holds no more chunks, than the frame that the call was read
from. -/
theorem rewriting_never_grows {buffer : Bytes} {made : List Call}
    (read : calls limits buffer = .ok made) :
    ∃ container frames, Container.read buffer = .ok container ∧ container.body = concat frames ∧
      List.Forall₂ (RewrittenFrom limits container.size)
        (frames.filter fun frame => frame.tag = .call) made := by
  obtain ⟨events, run, rfl⟩ := calls_eq_ok_iff.mp read
  obtain ⟨frames, tail, after, framed, -, reads⟩ := run_eq_ok_iff.mp run
  refine ⟨_, frames, framed.read, rfl, ?_⟩
  -- Nothing is in effect at the start, and nothing has been read there.
  have sources := reads.readFrom 0 (by
    intro config known
    exact absurd known (Option.some_ne_none config).symm)
  rw [Nat.zero_add] at sources
  apply sources.imp
  intro source call origin
  exact ⟨origin.decoded, origin.rewritten framed.short⟩

def measuredMade : Call := ⟨⟨.one, .one, .little⟩, 7, [.ofNat 1 1, .ofNat 2 1], none⟩

theorem measured_call_is_rewritten :
    calls .unbounded measuredMessage = .ok [measuredMade] ∧
    (∃ container frames, Container.read measuredMessage = .ok container ∧
      container.body = concat frames ∧
      List.Forall₂ (RewrittenFrom .unbounded container.size)
        (frames.filter fun frame => frame.tag = .call) [measuredMade]) ∧
    measuredMessage.length = 82 ∧
    (ofRequest measuredMade.config measuredMade.request).map List.length = .ok 46 := by
  have read : calls .unbounded measuredMessage = .ok [measuredMade] := by decide +kernel
  exact ⟨read, rewriting_never_grows read, by decide +kernel, by decide +kernel⟩

end Message

end Semihosting
