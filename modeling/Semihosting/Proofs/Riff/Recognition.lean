import Mathlib.Data.List.Basic
import Semihosting.Limits
import Semihosting.Proofs.Riff.Traversal
import Semihosting.Riff.Writer

/-!
# Walks recognise regions

Main result: a walk over a region of less than 4 GiB meets no fault exactly if the region is a
sequence of frames; it then yields these frames, and writing them anew gives the region back with
its padding cleared. A walk that fails has read all frames that can be split off the region.
-/
namespace Semihosting.Riff

open WireFrame

/-- The region that frames make up when their padding is cleared. -/
def WireFrame.cleared (frames : List WireFrame) : Bytes :=
  frames.flatMap fun frame => frame.toFrame.bytes

/-- Appends the frames of some chunks in order. -/
def Writer.pushAll (writer : Writer) (chunks : List Chunk) : Except Fault Writer :=
  chunks.foldlM (fun writer chunk => writer.push chunk.tag chunk.payload) writer

namespace Walk

/-- The walk at the start of a region, with no bound on chunks but that of their count. -/
def whole (region : Bytes) : Walk := start region Limits.unbounded.maxChunks

/-- The answers of a walk begin with the chunks of some frames. Each chunk stands at the total
length of the frames before it, and the cursor behind it at the offset of the next. -/
structure Yields (walk : Walk) (frames : List WireFrame) : Prop where
  answer : ∀ (index : Nat) (known : index < frames.length), (walk.advance index).next.1 =
    some (.ok (frames[index].chunkAt (concat (frames.take index)).length))
  cursor : ∀ index ≤ frames.length,
    (walk.advance index).cursor = (concat (frames.take index)).length

theorem room_whole {region rest : Bytes} {frames : List WireFrame}
    (short : region.length < offsetSpace) (front : region = concat frames ++ rest) :
    (whole region).seen + frames.length < (whole region).maxChunks.toNat := by
  -- Frames take eight bytes each, so no region holds as many as would exhaust the count.
  have width := width_mul_length_le frames
  have total := congrArg List.length front
  have bound : (whole region).maxChunks.toNat = 4294967295 := rfl
  have first : (whole region).seen = 0 := rfl
  rw [List.length_append] at total
  simp only [offsetSpace, UInt32.size, Header.width] at short width
  omega

/-- Frames at the front of a region are yielded one by one, each where it stands. -/
theorem yields_of_front {region rest : Bytes} {frames : List WireFrame}
    (short : region.length < offsetSpace) (front : region = concat frames ++ rest) :
    (whole region).Yields frames where
  answer := by
    intro index known
    have run := trail_past (ready_start short) front (Nat.le_of_lt (room_whole short front))
    have found : (whole region).trail.items[index]? =
        some (frames[index].chunkAt (concat (frames.take index)).length) := by
      rw [whole, run, List.getElem?_append_left (by rwa [length_chunksFrom]),
        getElem?_chunksFrom, List.getElem?_eq_getElem known, Option.map_some]
      exact congrArg (fun offset => some (frames[index].chunkAt offset)) (Nat.zero_add _)
    obtain ⟨inside, -⟩ := List.getElem?_eq_some_iff.mp found
    rw [next_advance, Trail.answers, List.getElem?_append_left (by rwa [List.length_map]),
      List.getElem?_map, found]
    rfl
  cursor := by
    intro index bound
    -- Behind the frames before the index, the others are still unread.
    have split : region = concat (frames.take index) ++ (concat (frames.drop index) ++ rest) := by
      rw [← List.append_assoc, ← concat_append, List.take_append_drop, front]
    have behind := advance_past (ready_start short) split (Nat.le_of_lt (room_whole short split))
    rw [List.length_take, Nat.min_eq_left bound] at behind
    rw [whole, behind, cursor_past]
    exact Nat.zero_add _

/-- A walk over a whole region reads the frames in front of the place where no frame stands. -/
theorem exists_frames_whole {region : Bytes} (short : region.length < offsetSpace) :
    ∃ (frames : List WireFrame) (rest : Bytes), region = concat frames ++ rest ∧
      (whole region).trail.items = chunksFrom 0 frames ∧
      ((whole region).trail.fault = none ↔ rest = []) ∧
      ∀ (frame : WireFrame) (behind : Bytes), rest ≠ frame.bytes ++ behind := by
  have ready : (whole region).Ready := ready_start short
  obtain ⟨frames, rest, front, counted, items, ends⟩ := exists_frames ready
  have ready' : ((whole region).past frames rest).Ready := ready_past ready front counted
  exact ⟨frames, rest, front, items, ends.eq_none_iff,
    stuck_of_ends ready' ends (room_whole short front)⟩

theorem trail_whole_concat {frames : List WireFrame}
    (short : (concat frames).length < offsetSpace) :
    (whole (concat frames)).trail = ⟨chunksFrom 0 frames, none⟩ := by
  have room := Nat.le_of_lt (room_whole short (List.append_nil _).symm)
  simp only [whole, start, Nat.zero_add] at room
  exact trail_start_concat short room

theorem next_advance_length {walk : Walk} {frames : List WireFrame} {fault : Option Fault}
    {offset : Nat} (run : walk.trail = ⟨chunksFrom offset frames, fault⟩) :
    (walk.advance frames.length).next.1 = fault.map .error := by
  have ending := walk.trail.answers_length
  rw [run, length_chunksFrom] at ending
  rw [next_advance, run, ending]

end Walk

namespace WireFrame

/-- Writing chunks that were read writes their frames with cleared padding. -/
theorem pushAll_chunksFrom (writer : Writer) (offset : Nat) (frames : List WireFrame) :
    writer.pushAll (chunksFrom offset frames) = .ok ⟨writer.bytes ++ cleared frames⟩ := by
  induction frames generalizing writer offset with
  | nil =>
    rw [cleared, List.flatMap_nil, List.append_nil]
    rfl
  | cons frame frames ih =>
    have pushed : writer.push frame.tag frame.payload =
        .ok ⟨writer.bytes ++ frame.toFrame.bytes⟩ := Writer.push_eq_ok frame.fits
    have rest := ih ⟨writer.bytes ++ frame.toFrame.bytes⟩ (offset + frame.bytes.length)
    rw [cleared, List.flatMap_cons, ← List.append_assoc]
    rw [chunksFrom_cons, Writer.pushAll, List.foldlM_cons]
    simp only [chunkAt, pushed]
    exact rest

theorem cleared_eq_concat {frames : List WireFrame}
    (clear : ∀ frame ∈ frames, ∀ byte ∈ frame.pad, byte = 0) : cleared frames = concat frames := by
  apply List.flatMap_congr
  intro frame member
  exact toFrame_bytes_eq (clear frame member)

end WireFrame

/-- A walk recognises the regions that are sequences of frames. It yields the frames of such a
region, whose only decomposition they are, and ends behind them; written anew they give the region
with its padding cleared. In any other region it yields the frames of the longest prefix that is a
sequence of frames before it fails. -/
theorem walk_recognises_regions (region : Bytes) (short : region.length < offsetSpace) :
    ((Walk.whole region).trail.fault = none ↔ ∃ frames, region = concat frames) ∧
    (∀ frames, region = concat frames →
      (∀ others, region = concat others → others = frames) ∧
      (Walk.whole region).trail = ⟨chunksFrom 0 frames, none⟩ ∧
      (Walk.whole region).Yields frames ∧
      ((Walk.whole region).advance frames.length).next.1 = none ∧
      ((Walk.whole region).advance frames.length).cursor = region.length ∧
      Writer.empty.pushAll (Walk.whole region).trail.items = .ok ⟨cleared frames⟩ ∧
      ((∀ frame ∈ frames, ∀ byte ∈ frame.pad, byte = 0) → cleared frames = region)) ∧
    (∀ fault, (Walk.whole region).trail.fault = some fault →
      ∃ (frames : List WireFrame) (rest : Bytes), region = concat frames ++ rest ∧
        (Walk.whole region).trail = ⟨chunksFrom 0 frames, some fault⟩ ∧
        (Walk.whole region).Yields frames ∧
        ((Walk.whole region).advance frames.length).next.1 = some (.error fault) ∧
        ∀ (others : List WireFrame) (tail : Bytes), region = concat others ++ tail →
          (concat others).length ≤ (concat frames).length) := by
  obtain ⟨found, rest, front, items, ends, stuck⟩ := Walk.exists_frames_whole short
  refine ⟨⟨fun finished => ⟨found, ?_⟩, ?_⟩, ?_, ?_⟩
  · rw [front, ends.mp finished, List.append_nil]
  · rintro ⟨frames, rfl⟩
    rw [Walk.trail_whole_concat short]
  · rintro frames rfl
    have run := Walk.trail_whole_concat short
    have yields := Walk.yields_of_front short (List.append_nil _).symm
    refine ⟨fun others same => (concat_injective same).symm, run, yields,
      Walk.next_advance_length run, ?_, ?_, cleared_eq_concat⟩
    · rw [yields.cursor _ (Nat.le_refl _), List.take_length]
    · rw [run, pushAll_chunksFrom]
      rfl
  · intro fault failed
    have run : (Walk.whole region).trail = ⟨chunksFrom 0 found, some fault⟩ := by
      rw [← items, ← failed]
    refine ⟨found, rest, front, run, Walk.yields_of_front short front,
      Walk.next_advance_length run, ?_⟩
    -- No frame stands where the walk failed, so no other frames reach further.
    intro others tail split
    exact length_concat_le_of_isPrefix (isPrefix_of_concat stuck (front.symm.trans split))

/-- An odd payload whose padding is not zero. -/
def oddFrame : WireFrame := ⟨⟨.data, [0x07]⟩, [0xAB], by decide, by decide⟩

def bareFrame : WireFrame := ⟨⟨.parm, []⟩, [], by decide, by decide⟩

theorem walk_recognises_odd_then_bare :
    (concat [oddFrame, bareFrame]).length < offsetSpace ∧
    (Walk.whole (concat [oddFrame, bareFrame])).trail.fault = none ∧
    ((Walk.whole (concat [oddFrame, bareFrame])).advance 1).cursor = 10 ∧
    Writer.empty.pushAll (Walk.whole (concat [oddFrame, bareFrame])).trail.items =
      .ok ⟨[0x44, 0x41, 0x54, 0x41, 1, 0, 0, 0, 0x07, 0, 0x50, 0x41, 0x52, 0x4D, 0, 0, 0, 0]⟩ ∧
    (concat [oddFrame] ++ [0x50, 0x41, 0x52]).length < offsetSpace ∧
    (Walk.whole (concat [oddFrame] ++ [0x50, 0x41, 0x52])).trail.fault = some (.truncated 8 3) ∧
    ∃ (frames : List WireFrame) (rest : Bytes),
      concat [oddFrame] ++ [0x50, 0x41, 0x52] = concat frames ++ rest ∧
      (Walk.whole (concat [oddFrame] ++ [0x50, 0x41, 0x52])).trail.items = chunksFrom 0 frames ∧
      (concat [oddFrame]).length ≤ (concat frames).length := by
  have short : (concat [oddFrame, bareFrame]).length < offsetSpace := by decide
  have short' : (concat [oddFrame] ++ [0x50, 0x41, 0x52]).length < offsetSpace := by decide
  have failed : (Walk.whole (concat [oddFrame] ++ [0x50, 0x41, 0x52])).trail.fault =
      some (.truncated 8 3) := by decide +kernel
  obtain ⟨accepted, parsed, -⟩ := walk_recognises_regions _ short
  obtain ⟨-, -, yields, -, -, written, -⟩ := parsed _ rfl
  obtain ⟨frames, rest, front, run, -, -, longest⟩ :=
    (walk_recognises_regions _ short').2.2 _ failed
  refine ⟨short, accepted.mpr ⟨_, rfl⟩, yields.cursor 1 (by decide), written, short', failed,
    frames, rest, front, by rw [run], longest _ _ rfl⟩

end Semihosting.Riff
