/-!
# Byte strings and the numbers they spell

A byte string is a list of bytes, and the two directions between byte strings and numbers put the
least significant byte first. Main statements: reading `n` written bytes gives the number modulo
`256 ^ n` (`toNat_ofNat`), and writing what was read gives the bytes back (`ofNat_toNat`).
-/
namespace Semihosting

-- Inside this namespace a power of a number is the elementary one, whatever others are imported.
attribute [scoped instance (high + 1)] instPowNat

/-- A finite string of bytes, in wire order. -/
abbrev Bytes := List UInt8

namespace Bytes

/-- The number a byte string spells, least significant byte first. -/
def toNat : Bytes → Nat
  | [] => 0
  | byte :: rest => byte.toNat + 256 * toNat rest

/-- The low `length` bytes of a number, least significant byte first. -/
def ofNat : (length : Nat) → (value : Nat) → Bytes
  | 0, _ => []
  | length + 1, value => UInt8.ofNat value :: ofNat length (value / 256)

/-- Two lower-case hexadecimal digits for each byte, in order. -/
def hex : Bytes → List Char
  | [] => []
  | byte :: rest => Nat.digitChar (byte.toNat / 16) :: Nat.digitChar (byte.toNat % 16) :: hex rest

@[simp] theorem toNat_nil : toNat [] = 0 := rfl

@[simp] theorem toNat_cons (byte : UInt8) (rest : Bytes) :
    toNat (byte :: rest) = byte.toNat + 256 * toNat rest := rfl

@[simp] theorem ofNat_zero (value : Nat) : ofNat 0 value = [] := rfl

@[simp] theorem ofNat_succ (length value : Nat) :
    ofNat (length + 1) value = UInt8.ofNat value :: ofNat length (value / 256) := rfl

@[simp] theorem length_ofNat (length value : Nat) : (ofNat length value).length = length := by
  induction length generalizing value with
  | zero => rfl
  | succ length ih => simp [ih]

/-- A string of `n` bytes spells a number below `256 ^ n`. -/
theorem toNat_lt (bytes : Bytes) : toNat bytes < 256 ^ bytes.length := by
  induction bytes with
  | nil => simp
  | cons byte rest ih =>
    have bound : byte.toNat < 256 := byte.toNat_lt
    simp only [toNat_cons, List.length_cons, Nat.pow_succ]
    omega

theorem toNat_ofNat (length value : Nat) : toNat (ofNat length value) = value % 256 ^ length := by
  induction length generalizing value with
  | zero => simp [Nat.mod_one]
  | succ length ih =>
    have low : (UInt8.ofNat value).toNat = value % 256 := by simp
    rw [ofNat_succ, toNat_cons, ih, low, Nat.pow_succ', Nat.mod_mul]

theorem ofNat_toNat (bytes : Bytes) : ofNat bytes.length (toNat bytes) = bytes := by
  induction bytes with
  | nil => rfl
  | cons byte rest ih =>
    have bound : byte.toNat < 256 := byte.toNat_lt
    have high : (byte.toNat + 256 * toNat rest) / 256 = toNat rest := by omega
    have low : UInt8.ofNat (byte.toNat + 256 * toNat rest) = byte := by
      apply UInt8.toNat_inj.mp
      simp
    rw [List.length_cons, ofNat_succ, toNat_cons, high, low, ih]

/-- Only the low bytes of a number are written. -/
theorem ofNat_mod (length value : Nat) :
    ofNat length (value % 256 ^ length) = ofNat length value := by
  rw [← toNat_ofNat]
  simpa using ofNat_toNat (ofNat length value)

/-- The bytes are the digits of the number in base 256. -/
theorem toNat_getD (bytes : Bytes) (place : Nat) :
    (bytes.getD place 0).toNat = toNat bytes / 256 ^ place % 256 := by
  induction bytes generalizing place with
  | nil => simp
  | cons byte rest ih =>
    have bound : byte.toNat < 256 := byte.toNat_lt
    cases place with
    | zero =>
      simp only [List.getD_cons_zero, toNat_cons, Nat.pow_zero, Nat.div_one]
      omega
    | succ place =>
      have high : (byte.toNat + 256 * toNat rest) / 256 = toNat rest := by omega
      rw [List.getD_cons_succ, ih, toNat_cons, Nat.pow_succ', ← Nat.div_div_eq_div_mul, high]

end Bytes

end Semihosting
