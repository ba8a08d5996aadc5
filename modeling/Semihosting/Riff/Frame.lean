import Semihosting.Riff.FourCC

/-!
# Frames

A frame is a tag, a little-endian 32-bit size, that many payload bytes, and one padding byte after
a payload of odd length. The padding byte is part of the region but not of the payload. Containers
open with the same eight header bytes. Main statements: `Header.split?` takes exactly one header
off the front (`Header.split?_bytes`, `Header.eq_of_split?`) and fails only for want of bytes
(`Header.split?_eq_none_iff`).
-/
namespace Semihosting.Riff

/-- One more than the greatest offset or size: both have 32 bits. -/
def offsetSpace : Nat := UInt32.size

/-- The tag and the declared size that open a frame or a container. -/
structure Header where
  tag : FourCC
  size : Nat
  deriving DecidableEq, Repr

namespace Header

def width : Nat := 8

/-- The bytes of a header. The size field has 32 bits and keeps no more of the size. -/
def bytes (header : Header) : Bytes :=
  header.tag.bytes ++ Bytes.ofNat 4 header.size

def split? : Bytes → Option (Header × Bytes)
  | a :: b :: c :: d :: e :: f :: g :: h :: rest =>
    some (⟨⟨a, b, c, d⟩, Bytes.toNat [e, f, g, h]⟩, rest)
  | _ => none

@[simp] theorem length_bytes (header : Header) : header.bytes.length = width := by
  simp [bytes, width]

theorem split?_eq_none_iff {bytes : Bytes} : split? bytes = none ↔ bytes.length < width := by
  unfold split?
  split
  · simp [width]
  next short =>
    simp only [true_iff, width]
    match bytes with
    | [] | [_] | [_, _] | [_, _, _] | [_, _, _, _] | [_, _, _, _, _] | [_, _, _, _, _, _]
    | [_, _, _, _, _, _, _] => simp
    | a :: b :: c :: d :: e :: f :: g :: h :: rest => exact absurd rfl (short a b c d e f g h rest)

theorem split?_bytes (header : Header) (rest : Bytes) (fits : header.size < offsetSpace) :
    split? (header.bytes ++ rest) = some (header, rest) := by
  obtain ⟨⟨a, b, c, d⟩, size⟩ := header
  have small : size < 256 ^ 4 := Nat.lt_of_lt_of_eq fits (by decide)
  have same := Bytes.toNat_ofNat 4 size
  rw [Nat.mod_eq_of_lt small] at same
  simp only [Bytes.ofNat_succ, Bytes.ofNat_zero] at same
  simp only [bytes, FourCC.bytes, Bytes.ofNat_succ, Bytes.ofNat_zero, List.cons_append,
    List.nil_append, split?, same]

theorem eq_of_split? {bytes : Bytes} {header : Header} {rest : Bytes}
    (taken : split? bytes = some (header, rest)) : bytes = header.bytes ++ rest := by
  unfold split? at taken
  split at taken
  next a b c d e f g h tail =>
    cases taken
    have same : Bytes.ofNat 4 (Bytes.toNat [e, f, g, h]) = [e, f, g, h] :=
      Bytes.ofNat_toNat [e, f, g, h]
    simp only [Header.bytes, FourCC.bytes, same, List.cons_append, List.nil_append]
  · cases taken

theorem size_lt_of_split? {bytes : Bytes} {header : Header} {rest : Bytes}
    (taken : split? bytes = some (header, rest)) : header.size < offsetSpace := by
  unfold split? at taken
  split at taken
  next a b c d e f g h tail =>
    cases taken
    have bound : Bytes.toNat [e, f, g, h] < 256 ^ 4 := Bytes.toNat_lt [e, f, g, h]
    exact Nat.lt_of_lt_of_eq bound (by decide)
  · cases taken

theorem length_of_split? {bytes : Bytes} {header : Header} {rest : Bytes}
    (taken : split? bytes = some (header, rest)) : bytes.length = width + rest.length := by
  rw [eq_of_split? taken, List.length_append, length_bytes]

end Header

/-- A tagged payload as it is written into a region. -/
structure Frame where
  tag : FourCC
  payload : Bytes
  deriving DecidableEq, Repr

namespace Frame

/-- The number of padding bytes after a payload of the given size. -/
def padding (size : Nat) : Nat := size % 2

/-- The bytes of a frame; its padding byte is zero. -/
def bytes (frame : Frame) : Bytes :=
  (Header.mk frame.tag frame.payload.length).bytes ++ frame.payload
    ++ List.replicate (padding frame.payload.length) 0

theorem length_bytes (frame : Frame) :
    frame.bytes.length = Header.width + frame.payload.length + padding frame.payload.length := by
  simp [bytes, Nat.add_assoc]

end Frame

end Semihosting.Riff
