import Semihosting.Proofs.Message.Indifference
import Semihosting.Proofs.Request.Acceptance

/-!
# Regrouped calls

Slots may be spread over parameter lists in any way, and a data block and unknown frames may stand
anywhere among the lists. Two ways to lay out one call are compared by what is laid out: the bytes
in slots and the data blocks. What is read is one closed form of these, in which the layout does not
occur (`LaidOut.decodeChunk_eq`). Main result: `regrouped_calls_read_alike`.
-/
namespace Semihosting.Request

open Riff (Chunk WireFrame offsetSpace)
open Riff.WireFrame (concat)
open Message (spareFrame)

def blocks (frames : List WireFrame) : List Bytes :=
  (frames.filter fun frame => frame.tag = .data).map fun frame => frame.payload

/-- Frames whose parameter lists are whole numbers of slots and that have one data block at most.
Whether there are more slots than may be is left open. -/
structure WellFormed (config : Configuration) (frames : List WireFrame) : Prop where
  whole : ∀ frame ∈ frames, frame.tag = .parm → frame.payload.length % config.slotWidth = 0
  single : (blocks frames).length ≤ 1

/-- Frames that lay out the same slots and the same data block. -/
structure Regroups (config : Configuration) (frames others : List WireFrame) : Prop where
  left : WellFormed config frames
  right : WellFormed config others
  stream : slotStream frames = slotStream others
  data : blocks frames = blocks others

/-- A chunk is a call made up of a header and frames, of which there are no more than may be. -/
structure LaidOut (config : Configuration) (limits : Limits) (chunk : Chunk) (header : Bytes)
    (frames : List WireFrame) : Prop where
  called : chunk.tag = .call
  width : header.length = config.callHeaderWidth
  payload : chunk.payload = header ++ concat frames
  short : chunk.payload.length < offsetSpace
  chunks : frames.length ≤ limits.maxChunks.toNat

variable {config : Configuration} {limits : Limits} {header : Bytes}
  {frames others : List WireFrame}

theorem firstBlock_eq_head? (frames : List WireFrame) :
    firstBlock frames = (blocks frames).head? := by
  rw [firstBlock, blocks, List.head?_map, List.head?_filter]

theorem two_le_blocks {before behind : List WireFrame} {frame : WireFrame}
    (data : frame.tag = .data) (held : ∃ other ∈ before, other.tag = .data) :
    2 ≤ (blocks (before ++ frame :: behind)).length := by
  obtain ⟨other, member, block⟩ := held
  have front : 0 < (before.filter fun frame => frame.tag = .data).length :=
    List.length_pos_of_mem (List.mem_filter.mpr ⟨member, decide_eq_true block⟩)
  rw [blocks, List.length_map, List.filter_append, List.filter_cons, if_pos (decide_eq_true data),
    List.length_append, List.length_cons]
  omega

/-- Well-formed frames clash in nothing but their slots, and only if there are too many of them. -/
theorem WellFormed.crowded {before behind : List WireFrame} {frame : WireFrame} {fault : Fault}
    (wellFormed : WellFormed config (before ++ frame :: behind))
    (clashes : Clashes config limits before frame fault) :
    fault = .limitExceeded .parameters limits.maxParameters.toNat ∧
      limits.maxParameters.toNat < slotCount config (before ++ frame :: behind) := by
  have last : frame ∈ before ++ frame :: behind := List.mem_append_right before List.mem_cons_self
  cases clashes with
  | ragged tag left => exact absurd (wellFormed.whole frame last tag) left
  | crowded tag whole more =>
    -- What is too much up to this frame is too much with all frames behind it.
    rw [slotCount_snoc] at more
    rw [slotCount_append, slotCount_cons]
    exact ⟨rfl, by omega⟩
  | repeated tag held =>
    exact absurd wellFormed.single (Nat.not_le_of_lt (two_le_blocks tag held))

/-- What is read from a call of well-formed frames is settled by their slots and their block, and so
is whether anything is. -/
theorem LaidOut.decodeChunk_eq {chunk : Chunk} (laid : LaidOut config limits chunk header frames)
    (wellFormed : WellFormed config frames) :
    decodeChunk (some config) limits chunk =
      if UInt32.size ≤ opcodeOf config header then
        .error (.invalidField .opcode (opcodeOf config header))
      else if config.slotWidth * limits.maxParameters.toNat < (slotStream frames).length then
        .error (.limitExceeded .parameters limits.maxParameters.toNat)
      else
        .ok ⟨UInt32.ofNat (opcodeOf config header), readSlots config (slotStream frames),
          (blocks frames).head?⟩ := by
  obtain ⟨called, width, split, short, chunks⟩ := laid
  rw [Message.decodeChunk_of_tag called]
  by_cases wide : UInt32.size ≤ opcodeOf config header
  · rw [if_pos wide]
    exact decode_of_refused (.opcode width split wide) short
  rw [if_neg wide, length_slotStream wellFormed.whole]
  have opcode := Nat.lt_of_not_le wide
  -- The frame at which the limit is noticed depends on the layout; that one is noticed does not.
  rcases exists_clash config limits frames with
    consistent | ⟨before, frame, behind, fault, rfl, consistent, clashes⟩
  · have few : ¬ config.slotWidth * limits.maxParameters.toNat <
        config.slotWidth * slotCount config frames :=
      Nat.not_lt_of_le (Nat.mul_le_mul_left _ consistent.counted)
    have begins : Begins config limits chunk.payload header frames [] :=
      ⟨width, by rw [List.append_nil, split], opcode, chunks, consistent⟩
    rw [if_neg few, decode_of_begins_nil begins short, gathered, firstBlock_eq_head?]
  · obtain ⟨rfl, more⟩ := wellFormed.crowded clashes
    rw [if_pos (Nat.mul_lt_mul_of_pos_left more config.slotWidth_pos)]
    rw [List.length_append, List.length_cons] at chunks
    have front : chunk.payload = header ++ (concat before ++ (frame.bytes ++ concat behind)) := by
      rw [split, WireFrame.concat_append, WireFrame.concat_cons]
    have begins :
        Begins config limits chunk.payload header before (frame.bytes ++ concat behind) :=
      ⟨width, front, opcode, by omega, consistent⟩
    exact decode_of_refused (.clash begins (by omega) clashes) short

/-- However the slots of a call are spread over parameter lists, wherever its data block and unknown
frames stand and whatever the padding holds, the same is read from it. Either all ways to lay it out
exceed the limit on parameters or none does, and they do so exactly if the slots are too many. -/
theorem regrouped_calls_read_alike {one other : Chunk} (regroups : Regroups config frames others)
    (laid : LaidOut config limits one header frames)
    (laid' : LaidOut config limits other header others) :
    decodeChunk (some config) limits one = decodeChunk (some config) limits other ∧
    (decodeChunk (some config) limits one =
        .error (.limitExceeded .parameters limits.maxParameters.toNat) ↔
      opcodeOf config header < UInt32.size ∧
        config.slotWidth * limits.maxParameters.toNat < (slotStream frames).length) := by
  rw [laid.decodeChunk_eq regroups.left, laid'.decodeChunk_eq regroups.right, ← regroups.stream,
    ← regroups.data]
  refine ⟨rfl, ?_⟩
  split
  next wide => simp [Nat.not_lt_of_le wide]
  next narrow =>
    split
    next more => exact ⟨fun _ => ⟨Nat.lt_of_not_le narrow, more⟩, fun _ => rfl⟩
    next few => simp [few]

/-- Three slots in one list, the data block behind it, and an empty list. -/
def gatheredFrames : List WireFrame :=
  [spareFrame 170 ⟨.parm, [1, 2, 3]⟩ (by decide), spareFrame 1 ⟨.data, [7, 8, 9]⟩ (by decide),
    spareFrame 0 ⟨.parm, []⟩ (show 0 < offsetSpace by decide)]

/-- The same slots in two lists, the data block between them, behind a frame that has no meaning in
a call. No padding is the same. -/
def scatteredFrames : List WireFrame :=
  [spareFrame 0 ⟨.erro, [5, 6]⟩ (by decide), spareFrame 9 ⟨.parm, [1]⟩ (by decide),
    spareFrame 255 ⟨.data, [7, 8, 9]⟩ (by decide), spareFrame 0 ⟨.parm, [2, 3]⟩ (by decide)]

def layout (frames : List WireFrame) : Chunk := ⟨.call, 0, [5, 0, 0, 0] ++ concat frames⟩

theorem scattered_frames_read_alike :
    Regroups ⟨.one, .one, .big⟩ gatheredFrames scatteredFrames ∧
    (∀ limits : Limits, 4 ≤ limits.maxChunks.toNat →
      LaidOut ⟨.one, .one, .big⟩ limits (layout gatheredFrames) [5, 0, 0, 0] gatheredFrames ∧
      LaidOut ⟨.one, .one, .big⟩ limits (layout scatteredFrames) [5, 0, 0, 0] scatteredFrames) ∧
    decodeChunk (some ⟨.one, .one, .big⟩) ⟨4, 1, 3⟩ (layout scatteredFrames) =
      .ok ⟨5, [.ofNat 1 1, .ofNat 2 1, .ofNat 3 1], some [7, 8, 9]⟩ ∧
    decodeChunk (some ⟨.one, .one, .big⟩) ⟨4, 1, 2⟩ (layout scatteredFrames) =
      .error (.limitExceeded .parameters 2) := by
  have regroups : Regroups ⟨.one, .one, .big⟩ gatheredFrames scatteredFrames :=
    ⟨⟨by decide, by decide⟩, ⟨by decide, by decide⟩, by decide, by decide⟩
  -- The layouts differ in the number of their frames, so there have to be four.
  have laid (limits : Limits) (room : 4 ≤ limits.maxChunks.toNat) :
      LaidOut ⟨.one, .one, .big⟩ limits (layout gatheredFrames) [5, 0, 0, 0] gatheredFrames ∧
      LaidOut ⟨.one, .one, .big⟩ limits (layout scatteredFrames) [5, 0, 0, 0] scatteredFrames :=
    ⟨⟨rfl, rfl, rfl, by decide +kernel, Nat.le_of_succ_le room⟩,
      ⟨rfl, rfl, rfl, by decide +kernel, room⟩⟩
  refine ⟨regroups, laid, ?_, ?_⟩
  · obtain ⟨one, other⟩ := laid ⟨4, 1, 3⟩ (by decide)
    rw [← (regrouped_calls_read_alike regroups one other).1]
    decide +kernel
  · obtain ⟨one, other⟩ := laid ⟨4, 1, 2⟩ (by decide)
    obtain ⟨same, exceeds⟩ := regrouped_calls_read_alike regroups one other
    rw [← same]
    exact exceeds.mpr (by decide +kernel)

end Semihosting.Request
