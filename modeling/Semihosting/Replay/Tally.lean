import Semihosting.ProtocolCode

/-!
# Tallies

Rejected inputs are counted by the protocol code of their fault. Main statement: counting a code
raises its count by one and no other (`count_add`).
-/
namespace Semihosting.Replay

structure Tally where
  invalidChunk : Nat
  malformedRiff : Nat
  missingConfiguration : Nat
  unsupportedOperation : Nat
  invalidParameters : Nat
  deriving DecidableEq, Repr

namespace Tally

def zero : Tally := ⟨0, 0, 0, 0, 0⟩

def count (tally : Tally) : ProtocolCode → Nat
  | .invalidChunk => tally.invalidChunk
  | .malformedRiff => tally.malformedRiff
  | .missingConfiguration => tally.missingConfiguration
  | .unsupportedOperation => tally.unsupportedOperation
  | .invalidParameters => tally.invalidParameters

def add (tally : Tally) : ProtocolCode → Tally
  | .invalidChunk => { tally with invalidChunk := tally.invalidChunk + 1 }
  | .malformedRiff => { tally with malformedRiff := tally.malformedRiff + 1 }
  | .missingConfiguration =>
    { tally with missingConfiguration := tally.missingConfiguration + 1 }
  | .unsupportedOperation =>
    { tally with unsupportedOperation := tally.unsupportedOperation + 1 }
  | .invalidParameters => { tally with invalidParameters := tally.invalidParameters + 1 }

/-- The codes that have been counted with their counts, in the order of their names. -/
def toList (tally : Tally) : List (ProtocolCode × Nat) :=
  (ProtocolCode.all.map fun code => (code, tally.count code)).filter fun pair => pair.2 ≠ 0

theorem count_add (tally : Tally) (added code : ProtocolCode) :
    (tally.add added).count code = tally.count code + if code = added then 1 else 0 := by
  cases added <;> cases code <;> simp [add, count]

end Tally

end Semihosting.Replay
