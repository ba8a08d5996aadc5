/-!
# Protocol error codes

The numbers a host sends in an `ERRO` chunk when it cannot service an envelope.
-/
namespace Semihosting

/-- Why an envelope could not be serviced, as told to the other side. -/
inductive ProtocolCode where
  /-- A chunk was missing, repeated or too short for its kind. -/
  | invalidChunk
  /-- The container framing was malformed. -/
  | malformedRiff
  /-- A call or a result arrived before a configuration. -/
  | missingConfiguration
  /-- The host does not support the operation. -/
  | unsupportedOperation
  /-- A field or a parameter list was malformed. -/
  | invalidParameters
  deriving DecidableEq, Repr

namespace ProtocolCode

/-- Every code, in the order of the names under which reports list them. -/
def all : List ProtocolCode :=
  [invalidChunk, invalidParameters, malformedRiff, missingConfiguration, unsupportedOperation]

def number : ProtocolCode → UInt32
  | invalidChunk => 1
  | malformedRiff => 2
  | missingConfiguration => 3
  | unsupportedOperation => 4
  | invalidParameters => 5

def ofNumber? (number : UInt32) : Option ProtocolCode :=
  all.find? fun code => code.number = number

/-- The name under which reports count the code. -/
def name : ProtocolCode → String
  | invalidChunk => "InvalidChunk"
  | malformedRiff => "MalformedRiff"
  | missingConfiguration => "MissingConfiguration"
  | unsupportedOperation => "UnsupportedOperation"
  | invalidParameters => "InvalidParameters"

theorem mem_all (code : ProtocolCode) : code ∈ all := by
  cases code <;> simp [all]

end ProtocolCode

end Semihosting
