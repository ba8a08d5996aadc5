import Semihosting.Configuration
import Semihosting.Operation
import Semihosting.Parameter

/-!
# Requests

A request asks the host for an operation, with positional parameters and at most one block of data.
-/
namespace Semihosting

/-- What a call asks for. -/
structure Request where
  /-- The number of the operation, in the catalogue or not. -/
  opcode : UInt32
  /-- The parameter slots in wire order. -/
  parameters : List Parameter
  /-- The data block; an empty one differs from none. -/
  data : Option Bytes
  deriving DecidableEq, Repr

namespace Request

def bare (opcode : UInt32) : Request := ⟨opcode, [], none⟩

def operation? (request : Request) : Option Operation :=
  Operation.ofNumber? request.opcode

end Request

/-- A request together with the configuration it was made under. -/
structure Call where
  config : Configuration
  request : Request
  deriving DecidableEq, Repr

end Semihosting
