import Semihosting.Fault

/-!
# Trails

What a reader that stops at its first fault leaves behind: the items before the fault, and the
fault if there was one.
-/
namespace Semihosting

/-- Items in the order they were read, and the fault that ended the reading, if one did. -/
structure Trail (α : Type) where
  items : List α
  fault : Option Fault
  deriving DecidableEq, Repr

namespace Trail

variable {α : Type}

/-- Nothing was left to read. -/
def done : Trail α := ⟨[], none⟩

/-- The first item could not be read. -/
def broken (fault : Fault) : Trail α := ⟨[], some fault⟩

/-- One item was read before all others. -/
def cons (item : α) (trail : Trail α) : Trail α :=
  { trail with items := item :: trail.items }

end Trail

end Semihosting
