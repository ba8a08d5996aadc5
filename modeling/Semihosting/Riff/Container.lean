import Semihosting.Fault
import Semihosting.Riff.Frame

/-!
# Containers

A semihosting message is one container: a header with the tag `RIFF`, the form `SEMI`, and a region
of chunks. The declared size counts the form and the region; bytes behind it do not belong to the
message. The size is judged before the form, so that a hostile size is reported as such.
-/
namespace Semihosting.Riff

def formWidth : Nat := 4

/-- A container of the semihosting form. -/
structure Container where
  /-- The declared size: the form type and the body. -/
  size : Nat
  /-- The region of chunks behind the form type. -/
  body : Bytes
  deriving DecidableEq, Repr

namespace Container

/-- The bytes in front of the body: a header and the form type. -/
def headerWidth : Nat := Header.width + formWidth

def splitForm? : Bytes → Option (FourCC × Bytes)
  | a :: b :: c :: d :: rest => some (⟨a, b, c, d⟩, rest)
  | _ => none

def read (buffer : Bytes) : Except Fault Container :=
  match Header.split? buffer with
  | none => .error (.truncated headerWidth buffer.length)
  | some (header, rest) =>
    if header.tag ≠ .riff then .error (.badMagic header.tag)
    else if rest.length < header.size then .error (.oversized header.size rest.length)
    else if header.size < formWidth then .error (.shortPayload .riff formWidth header.size)
    else match splitForm? rest with
      -- Not reached: the two checks of the size leave at least a form type.
      | none => .error (.truncated headerWidth buffer.length)
      | some (form, region) =>
        if form ≠ .semi then .error (.badForm form)
        else .ok ⟨header.size, region.take (header.size - formWidth)⟩

end Container

end Semihosting.Riff
