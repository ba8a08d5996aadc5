import Semihosting.Proofs.Riff.Verdicts

/-!
# Reading a chunk in place

A chunk is read from its own bytes. What stands in front of it moves its offset and what stands
behind it makes no difference, so regions can be put inside each other and one behind the other.
Main result: `chunks_are_read_in_place`.
-/
namespace Semihosting.Riff.Chunk

variable {front region other : Bytes} {cursor next : Nat} {chunk : Chunk}

/-- The same chunk, so many bytes further on. -/
def moved (distance : Nat) (chunk : Chunk) : Chunk :=
  { chunk with offset := distance + chunk.offset }

/-- A chunk is read exactly if the bytes of a frame stand at the cursor. -/
theorem readAt_eq_ok_iff :
    readAt region cursor = .ok (chunk, next) ↔ region.length < offsetSpace ∧
      ∃ (frame : WireFrame) (rest : Bytes), region.drop cursor = frame.bytes ++ rest ∧
        chunk = frame.chunkAt cursor ∧ next = cursor + frame.bytes.length := by
  -- A cursor with a frame behind it is inside the region.
  have inside {frame : WireFrame} {rest : Bytes}
      (front : region.drop cursor = frame.bytes ++ rest) :
      cursor + (region.drop cursor).length = region.length := by
    have width := frame.width_le_length_bytes
    have total := congrArg List.length front
    simp only [List.length_drop, List.length_append, Header.width] at total width ⊢
    omega
  rw [readAt, map_eq_ok_iff]
  constructor
  · rintro ⟨⟨_, rest⟩, taken, same⟩
    obtain ⟨short, frame, front, rfl⟩ := split_eq_ok_iff.mp taken
    cases same
    rw [inside front] at short
    exact ⟨short, frame, rest, front, rfl, frame.stop_chunkAt cursor⟩
  · rintro ⟨short, frame, rest, front, rfl, rfl⟩
    rw [← inside front] at short
    refine ⟨(frame.chunkAt cursor, rest), split_eq_ok_iff.mpr ⟨short, frame, front, rfl⟩, ?_⟩
    simp

/-- Behind a front, the chunk of the region is read at the length of the front. -/
theorem readAt_append_eq_ok_iff (short : (front ++ region).length < offsetSpace)
    {answer : Chunk × Nat} :
    readAt (front ++ region) front.length = .ok answer ↔
      ∃ chunk next, readAt region 0 = .ok (chunk, next) ∧
        answer = (chunk.moved front.length, front.length + next) := by
  have short' : region.length < offsetSpace := by
    rw [List.length_append] at short
    omega
  obtain ⟨chunk, next⟩ := answer
  simp only [readAt_eq_ok_iff, short, short', true_and, List.drop_left, List.drop_zero,
    Nat.zero_add]
  constructor
  · rintro ⟨frame, rest, split, rfl, rfl⟩
    exact ⟨_, _, ⟨frame, rest, split, rfl, rfl⟩, rfl⟩
  · rintro ⟨_, _, ⟨frame, rest, split, rfl, rfl⟩, same⟩
    cases same
    exact ⟨frame, rest, split, rfl, rfl⟩

theorem isSizeViolation_of_readAt {fault : Fault} (short : region.length < offsetSpace)
    (inside : cursor ≤ region.length) (failed : readAt region cursor = .error fault) :
    fault.isSizeViolation = true := by
  have narrow : cursor < offsetSpace := Nat.lt_of_le_of_lt inside short
  exact ((readAt_eq_iff short narrow).mp failed).isSizeViolation

/-- Only the bytes of a chunk and of its padding are looked at. -/
theorem readAt_congr (read : readAt region cursor = .ok (chunk, next))
    (short : other.length < offsetSpace)
    (agree : other.extract cursor next = region.extract cursor next) :
    readAt other cursor = .ok (chunk, next) := by
  obtain ⟨-, frame, rest, front, rfl, rfl⟩ := readAt_eq_ok_iff.mp read
  -- What the regions have in common is the frame.
  have window : (other.drop cursor).take frame.bytes.length = frame.bytes := by
    simpa [List.extract_eq_take_drop, front] using agree
  refine readAt_eq_ok_iff.mpr
    ⟨short, frame, (other.drop cursor).drop frame.bytes.length, ?_, rfl, rfl⟩
  calc other.drop cursor
      = (other.drop cursor).take frame.bytes.length ++
          (other.drop cursor).drop frame.bytes.length := (List.take_append_drop _ _).symm
    _ = frame.bytes ++ (other.drop cursor).drop frame.bytes.length := by rw [window]

/-- A chunk is read behind a front exactly if it is read at the start of its region, and it is the
same chunk further on; where there is none, the sizes are to blame in both places, though the faults
may differ. A chunk that is read in one region is read in every other that holds the same bytes from
the cursor up to the next cursor. -/
theorem chunks_are_read_in_place :
    (∀ front region : Bytes, (front ++ region).length < offsetSpace →
      (∀ answer, readAt (front ++ region) front.length = .ok answer ↔
        ∃ chunk next, readAt region 0 = .ok (chunk, next) ∧
          answer = (chunk.moved front.length, front.length + next)) ∧
      ∀ fault, readAt (front ++ region) front.length = .error fault →
        fault.isSizeViolation = true ∧
          ∃ fault', readAt region 0 = .error fault' ∧ fault'.isSizeViolation = true) ∧
    ∀ (region other : Bytes) (cursor : Nat) (chunk : Chunk) (next : Nat),
      readAt region cursor = .ok (chunk, next) → next ≤ other.length →
      other.length < offsetSpace → other.extract cursor next = region.extract cursor next →
      readAt other cursor = .ok (chunk, next) := by
  constructor
  · intro front region short
    refine ⟨fun _ => readAt_append_eq_ok_iff short, ?_⟩
    intro fault failed
    have inside : front.length ≤ (front ++ region).length := by simp
    have short' : region.length < offsetSpace := by
      rw [List.length_append] at short
      omega
    refine ⟨isSizeViolation_of_readAt short inside failed, ?_⟩
    cases alone : readAt region 0 with
    | error fault' =>
      exact ⟨fault', rfl, isSizeViolation_of_readAt short' (Nat.zero_le _) alone⟩
    | ok answer =>
      -- Read alone, the chunk would have been read behind the front as well.
      have further : readAt (front ++ region) front.length =
          .ok (answer.1.moved front.length, front.length + answer.2) :=
        (readAt_append_eq_ok_iff short).mpr ⟨_, _, alone, rfl⟩
      rw [further] at failed
      cases failed
  · intro region other cursor chunk next read _ short agree
    exact readAt_congr read short agree

/-- A header that declares nearly all offsets there are. -/
def greedy : Bytes := (Header.mk .data 0xFFFFFFF0).bytes

/-- A chunk of one byte, with padding that is not zero. -/
def odd : Bytes := [0x44, 0x41, 0x54, 0x41, 1, 0, 0, 0, 0x07, 0xAB]

theorem greedy_and_odd_are_read_in_place :
    (List.replicate 16 0 ++ greedy).length < offsetSpace ∧
    readAt greedy 0 = .error (.oversized 0xFFFFFFF0 0) ∧
    readAt (List.replicate 16 0 ++ greedy) 16 = .error (.sizeOverflow 16 0xFFFFFFF0) ∧
    (Fault.sizeOverflow 16 0xFFFFFFF0).isSizeViolation = true ∧
    ([9, 9] ++ odd).length < offsetSpace ∧
    readAt ([9, 9] ++ odd) 2 = .ok (⟨.data, 2, [0x07]⟩, 12) ∧
    12 ≤ ([5, 6] ++ odd ++ greedy).length ∧ ([5, 6] ++ odd ++ greedy).length < offsetSpace ∧
    ([5, 6] ++ odd ++ greedy).extract 2 12 = ([9, 9] ++ odd).extract 2 12 ∧
    readAt ([5, 6] ++ odd ++ greedy) 2 = .ok (⟨.data, 2, [0x07]⟩, 12) := by
  obtain ⟨moves, congr⟩ := chunks_are_read_in_place
  have short : (List.replicate 16 0 ++ greedy).length < offsetSpace := by decide
  have wraps : readAt (List.replicate 16 0 ++ greedy) 16 =
      .error (.sizeOverflow 16 0xFFFFFFF0) := rfl
  have blamed := (moves (List.replicate 16 0) greedy short).2 _ wraps
  have short' : ([9, 9] ++ odd).length < offsetSpace := by decide
  have alone : readAt odd 0 = .ok (⟨.data, 0, [0x07]⟩, 10) := rfl
  have read := ((moves [9, 9] odd short').1 _).mpr ⟨_, _, alone, rfl⟩
  have long : 12 ≤ ([5, 6] ++ odd ++ greedy).length := by decide
  have short'' : ([5, 6] ++ odd ++ greedy).length < offsetSpace := by decide
  have agree : ([5, 6] ++ odd ++ greedy).extract 2 12 = ([9, 9] ++ odd).extract 2 12 := by decide
  exact ⟨short, rfl, wraps, blamed.1, short', read, long, short'', agree,
    congr _ _ _ _ _ read long short'' agree⟩

end Semihosting.Riff.Chunk
