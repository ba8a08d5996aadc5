import Semihosting.ByteOrder

/-!
# Parameters

A parameter is the raw content of a slot of one to eight bytes. Whether it is a scalar or a pointer
is for the operation to say. Building one drops the bits above its width, so its content always
fits. Main statement: building a parameter from its own content changes nothing
(`ofNat_raw_width`).
-/
namespace Semihosting

/-- The raw content of a slot. -/
structure Parameter where
  /-- The content as an unsigned number. -/
  raw : Nat
  /-- The width of the slot in bytes. -/
  width : Nat
  width_pos : 0 < width
  width_le : width ≤ 8
  raw_lt : raw < 256 ^ width
  deriving DecidableEq, Repr

namespace Parameter

/-- The nearest width that a slot can have. -/
def clampWidth (width : Nat) : Nat := max 1 (min 8 width)

theorem clampWidth_pos (width : Nat) : 0 < clampWidth width := by
  simp only [clampWidth]
  omega

theorem clampWidth_le (width : Nat) : clampWidth width ≤ 8 := by
  simp only [clampWidth]
  omega

theorem clampWidth_eq_self {width : Nat} (positive : 0 < width) (small : width ≤ 8) :
    clampWidth width = width := by
  simp only [clampWidth]
  omega

/-- The low bytes of a number, in a slot of the nearest possible width. -/
def ofNat (value width : Nat) : Parameter where
  raw := value % 256 ^ clampWidth width
  width := clampWidth width
  width_pos := clampWidth_pos width
  width_le := clampWidth_le width
  raw_lt := Nat.mod_lt _ (Nat.pow_pos (by decide))

/-- The low bytes of the two's complement of a number, in a slot of the nearest possible width. -/
def ofInt (value : Int) (width : Nat) : Parameter :=
  ofNat (value % 256 ^ clampWidth width).toNat width

/-- The content read as two's complement. -/
def signed (parameter : Parameter) : Int :=
  Int.bmod parameter.raw (256 ^ parameter.width)

theorem ext_raw_width {left right : Parameter} (raw : left.raw = right.raw)
    (width : left.width = right.width) : left = right := by
  cases left; cases right; simp_all

@[simp] theorem ofNat_raw_width (parameter : Parameter) :
    ofNat parameter.raw parameter.width = parameter := by
  have width := clampWidth_eq_self parameter.width_pos parameter.width_le
  apply ext_raw_width
  · simp [ofNat, width, Nat.mod_eq_of_lt parameter.raw_lt]
  · simp [ofNat, width]

end Parameter

end Semihosting
