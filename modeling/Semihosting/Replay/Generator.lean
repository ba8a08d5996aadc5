import Semihosting.Bytes

/-!
# Generators

Inputs are varied by draws from a generator, which is started from a seed, so that a run can be
repeated. Of a draw nothing is known but the range that its type gives, and what is said about runs
holds for every generator.
-/
namespace Semihosting.Replay

/-- A source of random draws, each of which leaves it in another state. -/
class Generator where
  State : Type
  /-- The state that a seed determines. -/
  ofSeed : UInt64 → State
  /-- One of four ways to go on. -/
  way : StateM State (Fin 4)
  /-- A number that is at most the given one. -/
  upTo (last : Nat) : StateM State {number : Nat // number ≤ last}
  /-- A number that is at least the first and below the second. -/
  between (least bound : Nat) (room : least < bound) :
    StateM State {number : Nat // least ≤ number ∧ number < bound}
  word : StateM State UInt32
  /-- A byte with a bit set. -/
  mask : StateM State {mask : UInt8 // mask ≠ 0}
  bytes (count : Nat) : StateM State {bytes : Bytes // bytes.length = count}

namespace Generator

/-- A number below the bound from the standard library's generator. -/
def below (bound : Nat) (positive : 0 < bound) : StateM StdGen (Fin bound) := fun generator =>
  let (number, generator) := randNat generator 0 (bound - 1)
  (⟨number % bound, Nat.mod_lt number positive⟩, generator)

def bytesBelow : (count : Nat) → StateM StdGen {bytes : Bytes // bytes.length = count}
  | 0 => return ⟨[], rfl⟩
  | count + 1 => do
    let byte ← below 256 (by decide)
    let ⟨rest, length⟩ ← bytesBelow count
    return ⟨UInt8.ofNat byte :: rest, by rw [List.length_cons, length]⟩

theorem ofNat_succ_ne_zero (number : Fin 255) : UInt8.ofNat (number + 1) ≠ 0 := by
  intro zero
  have same : (number.val + 1) % 256 = 0 := by simpa using congrArg UInt8.toNat zero
  omega

/-- The generator of the executable. -/
instance standard : Generator where
  State := StdGen
  ofSeed seed := mkStdGen seed.toNat
  way := below 4 (by decide)
  upTo last := do
    let number ← below (last + 1) (Nat.succ_pos last)
    return ⟨number, Nat.le_of_lt_succ number.isLt⟩
  between least bound room := do
    let number ← below (bound - least) (Nat.sub_pos_of_lt room)
    return ⟨least + number, Nat.le_add_right _ _, by omega⟩
  word := do
    let number ← below UInt32.size (by decide)
    return UInt32.ofNat number
  mask := do
    let number ← below 255 (by decide)
    return ⟨UInt8.ofNat (number + 1), ofNat_succ_ne_zero number⟩
  bytes := bytesBelow

end Generator

end Semihosting.Replay
