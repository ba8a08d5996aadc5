import Semihosting.Riff.Chunk
import Semihosting.Trail

/-!
# Walking a region

A walk reads the chunks of a region from left to right, up to a bound on their number. It stops for
good at the first fault and at the end of the region. Main statement: each chunk that is read makes
the unread part shorter (`unread_lt_of_next`), so every walk ends.
-/
namespace Semihosting.Riff

/-- A place in a region that is being read. -/
structure Walk where
  /-- The bytes that have not been read. -/
  unread : Bytes
  /-- The offset of the first unread byte. -/
  cursor : Nat
  /-- The number of chunks read so far. -/
  seen : Nat
  /-- How many chunks may be read. -/
  maxChunks : UInt32
  /-- Whether a fault has ended the walk. -/
  failed : Bool
  deriving DecidableEq, Repr

namespace Walk

def start (region : Bytes) (maxChunks : UInt32) : Walk :=
  ⟨region, 0, 0, maxChunks, false⟩

/-- The next chunk or the fault in its place, and the walk behind it; nothing once the walk has
failed or the region is used up. -/
def next (walk : Walk) : Option (Except Fault Chunk) × Walk :=
  if walk.failed ∨ walk.unread = [] then (none, walk)
  else if walk.maxChunks.toNat ≤ walk.seen then
    (some (.error (.limitExceeded .chunks walk.maxChunks.toNat)), { walk with failed := true })
  else match Chunk.split walk.cursor walk.unread with
    | .error fault => (some (.error fault), { walk with failed := true })
    | .ok (chunk, rest) =>
      (some (.ok chunk), { walk with unread := rest, cursor := chunk.stop, seen := walk.seen + 1 })

theorem unread_lt_of_next {walk after : Walk} {chunk : Chunk}
    (read : walk.next = (some (.ok chunk), after)) : after.unread.length < walk.unread.length := by
  unfold next at read
  split at read
  · cases read
  · split at read
    · cases read
    · split at read
      · cases read
      next taken =>
        cases read
        exact Chunk.length_lt_of_split taken

/-- Hands the chunks to `step` one after another. The first fault, of the walk or of a step, ends
it. -/
def fold {α : Type} (step : α → Chunk → Except Fault α) (walk : Walk) (state : α) :
    Except Fault α :=
  match _read : walk.next with
  | (none, _) => .ok state
  | (some (.error fault), _) => .error fault
  | (some (.ok chunk), after) =>
    match step state chunk with
    | .error fault => .error fault
    | .ok state => fold step after state
termination_by walk.unread.length
decreasing_by exact unread_lt_of_next _read

/-- The chunks that can be read, and the fault that ends the walk if one does. -/
def trail (walk : Walk) : Trail Chunk :=
  match _read : walk.next with
  | (none, _) => .done
  | (some (.error fault), _) => .broken fault
  | (some (.ok chunk), after) => (trail after).cons chunk
termination_by walk.unread.length
decreasing_by exact unread_lt_of_next _read

theorem fold_of_next_ok {α : Type} {step : α → Chunk → Except Fault α} {walk after : Walk}
    {state : α} {chunk : Chunk} (read : walk.next = (some (.ok chunk), after)) :
    walk.fold step state = (step state chunk).bind (after.fold step) := by
  rw [fold]
  split <;> simp_all
  cases step state chunk <;> rfl

theorem trail_of_next_none {walk after : Walk} (ended : walk.next = (none, after)) :
    walk.trail = .done := by
  rw [trail]
  split <;> simp_all

theorem trail_of_next_error {walk after : Walk} {fault : Fault}
    (failed : walk.next = (some (.error fault), after)) : walk.trail = .broken fault := by
  rw [trail]
  split <;> simp_all

theorem trail_of_next_ok {walk after : Walk} {chunk : Chunk}
    (read : walk.next = (some (.ok chunk), after)) : walk.trail = after.trail.cons chunk := by
  rw [trail]
  split <;> simp_all

end Walk

end Semihosting.Riff
