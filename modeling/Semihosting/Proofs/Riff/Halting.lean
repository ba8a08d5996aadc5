import Semihosting.Proofs.Riff.Locality
import Semihosting.Proofs.Riff.Traversal

/-!
# Where a walk halts

A walk that meets a fault has read the frames in front of the place that is to blame, one at each
answer, and stands at that place for good. Main result: `Walk.exists_halts`.
-/
namespace Semihosting.Riff.Walk

open WireFrame

/-- What a fault is due to behind so many chunks, at an offset where there are bytes left: either no
chunk may be read any more, or none stands there. -/
inductive Blames (region : Bytes) (maxChunks : UInt32) (read offset : Nat) : Fault → Prop
  | full : offset < region.length → read = maxChunks.toNat →
      Blames region maxChunks read offset (.limitExceeded .chunks maxChunks.toNat)
  | broken {fault} : offset < region.length → read < maxChunks.toNat →
      Chunk.readAt region offset = .error fault → Blames region maxChunks read offset fault

/-- A walk meets the fault when it was asked so often before. Until then it answers with the chunks
of the frames, and afterwards its cursor stays behind them. -/
structure Halts (region : Bytes) (maxChunks : UInt32) (asked : Nat) (fault : Fault)
    (frames : List WireFrame) : Prop where
  front : concat frames <+: region
  counted : frames.length = asked
  answered : ∀ earlier < asked, ((start region maxChunks).advance earlier).next.1 =
    (chunksFrom 0 frames)[earlier]?.map .ok
  blames : Blames region maxChunks asked (concat frames).length fault
  cursor : ∀ later > asked, ((start region maxChunks).advance later).cursor =
    (concat frames).length

variable {region : Bytes} {maxChunks : UInt32} {asked : Nat} {fault : Fault}

/-- The reason for which a walk ends behind frames of its region is that of the region. -/
theorem blames_of_ends {frames : List WireFrame} {rest : Bytes}
    (front : region = concat frames ++ rest) (room : frames.length ≤ maxChunks.toNat)
    (ends : ((start region maxChunks).past frames rest).Ends (some fault)) :
    Blames region maxChunks frames.length (concat frames).length fault := by
  have inside (more : rest ≠ []) : (concat frames).length < region.length := by
    rw [front, List.length_append]
    exact Nat.lt_add_of_pos_right (List.length_pos_iff.mpr more)
  have seen : ((start region maxChunks).past frames rest).seen = frames.length :=
    Nat.zero_add _
  have cursor : ((start region maxChunks).past frames rest).cursor = (concat frames).length :=
    Nat.zero_add _
  cases ends with
  | full more full =>
    rw [seen] at full
    exact .full (inside more) (Nat.le_antisymm room full)
  | broken more few failed =>
    rw [seen] at few
    refine .broken (inside more) few ?_
    -- What the walk has not read is the region from its cursor on.
    have behind : region.drop (concat frames).length = rest := by
      rw [front, List.drop_left]
    rw [cursor] at failed
    rw [Chunk.readAt, behind]
    exact map_eq_error_iff.mpr failed

/-- Wherever a walk fails, frames at the front of the region account for its answers so far. -/
theorem exists_halts
    (failed : ((start region maxChunks).advance asked).next.1 = some (.error fault)) :
    ∃ frames, Halts region maxChunks asked fault frames := by
  have alive : (start region maxChunks).failed = false := rfl
  obtain ⟨frames, rest, front, room, items, ends, stays⟩ :=
    exists_frames_of_alive alive (Nat.zero_le _)
  have front : region = concat frames ++ rest := front
  have room : frames.length ≤ maxChunks.toNat := by simpa [start] using room
  rw [next_advance] at failed
  -- The fault comes behind all items, and there is one item for each frame.
  obtain ⟨last, ended⟩ := Trail.answers_eq_error_iff.mp failed
  rw [items, length_chunksFrom] at last
  subst last
  rw [ended] at ends
  refine ⟨frames, ⟨rest, front.symm⟩, rfl, ?_, blames_of_ends front room ends, ?_⟩
  · intro earlier before
    rw [next_advance, Trail.answers, items, List.getElem?_append_left (by simpa using before),
      List.getElem?_map]
    rfl
  · intro later after
    obtain ⟨calls, rfl⟩ := Nat.exists_eq_add_of_lt after
    rw [stays]
    exact Nat.zero_add _

end Semihosting.Riff.Walk
