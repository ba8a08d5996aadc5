/-!
# Limits

A reader of untrusted messages bounds how much it is willing to look at.
-/
namespace Semihosting

/-- How much of a message is read before it is refused. -/
structure Limits where
  /-- The chunks accepted at one level. -/
  maxChunks : UInt32
  /-- The calls accepted in one message. -/
  maxCalls : UInt64
  /-- The parameter slots accepted in one call. -/
  maxParameters : UInt64
  deriving DecidableEq, Repr

namespace Limits

/-- The limits that hold unless others are chosen. -/
def standard : Limits := ⟨256, 16, 64⟩

/-- Limits that only the length of the message can reach. -/
def unbounded : Limits := ⟨0xFFFFFFFF, 0xFFFFFFFFFFFFFFFF, 0xFFFFFFFFFFFFFFFF⟩

end Limits

end Semihosting
