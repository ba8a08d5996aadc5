import Semihosting.ProtocolCode
import Semihosting.Riff.FourCC

/-!
# Faults

Everything that can be wrong with a message, as causes. Each fault has one wording (`message`) and
one protocol code (`code`). A fault ends the message it was found in.
-/
namespace Semihosting

open Riff (FourCC)

/-- A field whose value can lie outside its allowed set. -/
inductive Field where
  | intSize
  | ptrSize
  | byteOrder
  | chunkId
  | opcode
  | parameter
  deriving DecidableEq, Repr

def Field.label : Field → String
  | intSize => "int_size"
  | ptrSize => "ptr_size"
  | byteOrder => "endianness"
  | chunkId => "chunk id"
  | opcode => "opcode"
  | parameter => "parameter"

/-- A quantity that is bounded while a message is read. -/
inductive Bound where
  /-- The length of a region; offsets have 32 bits. -/
  | regionLength
  /-- The chunks at one level. -/
  | chunks
  /-- The calls in one message. -/
  | calls
  /-- The parameter slots in one call. -/
  | parameters
  deriving DecidableEq, Repr

def Bound.label : Bound → String
  | regionLength => "region length"
  | chunks => "chunks per container"
  | calls => "calls per message"
  | parameters => "parameters per call"

/-- A reason for which a message is refused. -/
inductive Fault where
  /-- Fewer bytes are left than a structure needs. -/
  | truncated (needed available : Nat)
  /-- An offset plus a size would leave the 32-bit offset space. -/
  | sizeOverflow (offset size : Nat)
  /-- A declared size exceeds the bytes that are left. -/
  | oversized (declared available : Nat)
  /-- A chunk is well framed but too short for its kind. -/
  | shortPayload (chunk : FourCC) (needed actual : Nat)
  /-- A field holds a value outside its allowed set. -/
  | invalidField (field : Field) (value : Nat)
  /-- A parameter list is not a whole number of slots. -/
  | raggedParameters (length slotWidth : Nat)
  /-- A call or a result came before any configuration. -/
  | notConfigured
  /-- The buffer is not a container. -/
  | badMagic (found : FourCC)
  /-- The container is not of the semihosting form. -/
  | badForm (found : FourCC)
  /-- A call carries a second data block. -/
  | duplicateData
  /-- A bound on what is read was reached. -/
  | limitExceeded (bound : Bound) (max : Nat)
  deriving DecidableEq, Repr

namespace Fault

def message : Fault → String
  | truncated needed available => s!"truncated: needed {needed} bytes, {available} available"
  | sizeOverflow offset size => s!"size overflow: {size} bytes at offset {offset}"
  | oversized declared available =>
    s!"declared size {declared} exceeds {available} available bytes"
  | shortPayload chunk needed actual =>
    s!"{chunk.text} payload of {actual} bytes is shorter than {needed}"
  | invalidField field value => s!"invalid {field.label} value {value}"
  | raggedParameters length slotWidth =>
    s!"PARM payload of {length} bytes is not a multiple of slot width {slotWidth}"
  | notConfigured => "configuration not negotiated"
  | badMagic found => s!"bad container magic {found.text}"
  | badForm found => s!"bad form type {found.text}"
  | duplicateData => "duplicate DATA sub-chunk"
  | limitExceeded bound max => s!"{bound.label} limit of {max} exceeded"

/-- The code a host reports for a fault. -/
def code : Fault → ProtocolCode
  | truncated .. | sizeOverflow .. | oversized .. | badMagic _ | badForm _ | limitExceeded .. =>
    .malformedRiff
  | shortPayload .. | duplicateData => .invalidChunk
  | invalidField .. | raggedParameters .. => .invalidParameters
  | notConfigured => .missingConfiguration

/-- Whether a fault is about the sizes that frames and containers declare. -/
def isSizeViolation : Fault → Bool
  | truncated .. | sizeOverflow .. | oversized .. => true
  | _ => false

theorem code_of_isSizeViolation {fault : Fault} (size : fault.isSizeViolation = true) :
    fault.code = .malformedRiff := by
  cases fault <;> simp_all [isSizeViolation, code]

theorem code_ne_unsupportedOperation (fault : Fault) : fault.code ≠ .unsupportedOperation := by
  cases fault <;> simp [code]

end Fault

end Semihosting
