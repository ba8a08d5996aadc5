import Semihosting.Bytes

/-!
# Four-character codes

Containers, forms and chunks are tagged by four bytes. The codes of the semihosting form are named
here; every other code is legal and belongs to a chunk that readers skip.
-/
namespace Semihosting.Riff

/-- A tag of four bytes, in wire order. -/
structure FourCC where
  first : UInt8
  second : UInt8
  third : UInt8
  fourth : UInt8
  deriving DecidableEq, Repr

namespace FourCC

/-- The outer container. -/
def riff : FourCC := ⟨0x52, 0x49, 0x46, 0x46⟩

/-- The form of a semihosting container. -/
def semi : FourCC := ⟨0x53, 0x45, 0x4D, 0x49⟩

/-- A chunk that negotiates the configuration. -/
def cnfg : FourCC := ⟨0x43, 0x4E, 0x46, 0x47⟩

/-- A chunk that invokes an operation. -/
def call : FourCC := ⟨0x43, 0x41, 0x4C, 0x4C⟩

/-- A list of parameter slots inside a call. -/
def parm : FourCC := ⟨0x50, 0x41, 0x52, 0x4D⟩

/-- The data block inside a call. -/
def data : FourCC := ⟨0x44, 0x41, 0x54, 0x41⟩

/-- A chunk that carries the result of a call. -/
def retn : FourCC := ⟨0x52, 0x45, 0x54, 0x4E⟩

/-- A chunk that carries a protocol error. -/
def erro : FourCC := ⟨0x45, 0x52, 0x52, 0x4F⟩

def bytes (tag : FourCC) : Bytes :=
  [tag.first, tag.second, tag.third, tag.fourth]

def toNat (tag : FourCC) : Nat :=
  tag.bytes.toNat

/-- Whether a byte stands for a visible ASCII character or a space. -/
def isPrintable (byte : UInt8) : Bool :=
  0x20 ≤ byte && byte ≤ 0x7E

/-- A printable tag is shown as its characters, any other as eight hexadecimal digits of its
little-endian number. -/
def text (tag : FourCC) : String :=
  if tag.bytes.all isPrintable then
    String.ofList (tag.bytes.map fun byte => Char.ofNat byte.toNat)
  else
    String.ofList ('0' :: 'x' :: Bytes.hex tag.bytes.reverse)

@[simp] theorem length_bytes (tag : FourCC) : tag.bytes.length = 4 := rfl

theorem bytes_injective {left right : FourCC} (same : left.bytes = right.bytes) : left = right := by
  cases left; cases right; simp_all [bytes]

end FourCC

end Semihosting.Riff
