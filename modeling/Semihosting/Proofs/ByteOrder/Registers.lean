import Semihosting.ByteOrder

/-!
# Integers in registers

The bytes of an integer are its digits in base 256, and a byte order says from which end they are
counted. A machine shifts the bytes of an integer into a register of 64 bits to read it and out of
one to write it, so eight digits at most are ever of use. Main results: two strings spell one
integer exactly if their eight lowest digits agree (`read_eq_read_iff`), reading and writing come to
what a register does (`toNat_load`, `store_eq_write`), and the low bytes of a value survive both
directions in every width and order (`low_bytes_are_exchanged`).
-/
namespace Semihosting.ByteOrder

variable {order : ByteOrder} {bytes other : Bytes} {place : Nat}

/-! ### Digits -/

/-- The byte at a place, counted from the least significant one. There are zeros past the last. -/
def digit : ByteOrder → Bytes → Nat → UInt8
  | little, bytes, place => bytes.getD place 0
  | big, bytes, place => if place < bytes.length then bytes.getD (bytes.length - 1 - place) 0 else 0

/-- Digits are counted from the least significant end, at whichever end of the string it stands. -/
theorem digit_eq (order : ByteOrder) (bytes : Bytes) (place : Nat) :
    order.digit bytes place = (order.arrange bytes).getD place 0 := by
  cases order with
  | little => rfl
  | big =>
    by_cases inside : place < bytes.length
    · rw [digit, if_pos inside, arrange, List.getD_eq_getElem?_getD, List.getD_eq_getElem?_getD,
        List.getElem?_reverse inside]
    · simp [digit, arrange, inside]

theorem toNat_digit (order : ByteOrder) (bytes : Bytes) (place : Nat) :
    (order.digit bytes place).toNat = (order.arrange bytes).toNat / 256 ^ place % 256 := by
  rw [digit_eq, Bytes.toNat_getD]

/-- The eight lowest digits of a string are those of the integer that it spells. -/
theorem toNat_digit_of_low (order : ByteOrder) (bytes : Bytes) (low : place < 8) :
    (order.digit bytes place).toNat = order.read bytes / 256 ^ place % 256 := by
  have register : UInt64.size = 256 ^ place * 256 ^ (8 - place) := by
    rw [← Nat.pow_add, Nat.add_sub_cancel' (Nat.le_of_lt low)]
  have left : 1 ≤ 8 - place := by omega
  have digits : 256 ∣ 256 ^ (8 - place) := Nat.pow_dvd_pow 256 left
  rw [toNat_digit, read, register, Nat.mod_mul_right_div_self, Nat.mod_mod_of_dvd _ digits]

theorem digit_write_of_high (order : ByteOrder) (length : Nat) {value : Nat}
    (fits : value < UInt64.size) (high : 8 ≤ place) :
    order.digit (order.write length value) place = 0 := by
  have small : value % 256 ^ length < 256 ^ place :=
    calc value % 256 ^ length ≤ value := Nat.mod_le _ _
      _ < 256 ^ 8 := fits
      _ ≤ 256 ^ place := Nat.pow_le_pow_right (by decide) high
  apply UInt8.toNat_inj.mp
  rw [toNat_digit, write, arrange_arrange, Bytes.toNat_ofNat, Nat.div_eq_of_lt small]
  rfl

/-- Numbers with the same lowest digits have the same remainder. -/
theorem mod_eq_of_digits {left right : Nat} (count : Nat)
    (same : ∀ place < count, left / 256 ^ place % 256 = right / 256 ^ place % 256) :
    left % 256 ^ count = right % 256 ^ count := by
  induction count with
  | zero => simp [Nat.mod_one]
  | succ count ih =>
    have lower := ih fun place low => same place (Nat.lt_succ_of_lt low)
    rw [Nat.mod_pow_succ, Nat.mod_pow_succ, lower, same count (Nat.lt_succ_self count)]

/-- All that is read of a string is its eight lowest digits, and these can be told from it. -/
theorem read_eq_read_iff :
    order.read bytes = order.read other ↔
      ∀ place < 8, order.digit bytes place = order.digit other place := by
  constructor
  · intro same place low
    apply UInt8.toNat_inj.mp
    rw [toNat_digit_of_low order bytes low, toNat_digit_of_low order other low, same]
  · intro same
    have lowest (place : Nat) (low : place < 8) :
        order.read bytes / 256 ^ place % 256 = order.read other / 256 ^ place % 256 := by
      rw [← toNat_digit_of_low order bytes low, ← toNat_digit_of_low order other low,
        same place low]
    have digits : order.read bytes % UInt64.size = order.read other % UInt64.size :=
      mod_eq_of_digits 8 lowest
    rwa [Nat.mod_eq_of_lt (order.read_lt bytes), Nat.mod_eq_of_lt (order.read_lt other)] at digits

/-- The narrower of the written bytes and the register decides what is left of a value. -/
theorem read_write_min (order : ByteOrder) (length value : Nat) :
    order.read (order.write length value) = value % 2 ^ (8 * min length 8) := by
  rw [Nat.pow_mul]
  rcases Nat.le_total length 8 with short | long
  · rw [read_write_of_le order short, Nat.min_eq_left short]
  · have divides : UInt64.size ∣ 256 ^ length := Nat.pow_dvd_pow 256 long
    rw [read_write, Nat.mod_mod_of_dvd _ divides, Nat.min_eq_right long]

/-! ### Registers -/

/-- One more byte at the low end of a register. The byte at the high end falls out. -/
def shiftIn (register : UInt64) (byte : UInt8) : UInt64 := register <<< 8 ||| byte.toUInt64

def lowByte (register : UInt64) : UInt8 := (register &&& 0xFF).toUInt8

/-- The register that bytes are shifted into, the most significant one first. -/
def load : ByteOrder → Bytes → UInt64
  | little, bytes => bytes.reverse.foldl shiftIn 0
  | big, bytes => bytes.foldl shiftIn 0

/-- So many bytes shifted out of a register, the least significant one first. -/
def store : ByteOrder → Nat → UInt64 → Bytes
  | _, 0, _ => []
  | little, length + 1, register => lowByte register :: store little length (register >>> 8)
  | big, length + 1, register => store big length (register >>> 8) ++ [lowByte register]

/-- The byte becomes the lowest digit, and a ninth digit is lost. -/
theorem toNat_shiftIn (register : UInt64) (byte : UInt8) :
    (shiftIn register byte).toNat = (byte.toNat + 256 * register.toNat) % UInt64.size := by
  have bound : byte.toNat < 2 ^ 8 := byte.toNat_lt
  have word : byte.toNat < UInt64.size := Nat.lt_trans bound (by decide)
  have whole : byte.toNat % UInt64.size = byte.toNat := Nat.mod_eq_of_lt word
  -- The low end is empty after the shift, so the byte is added there.
  have apart : register.toNat <<< 8 ||| byte.toNat = 256 * register.toNat + byte.toNat := by
    rw [← Nat.shiftLeft_add_eq_or_of_lt bound, Nat.shiftLeft_eq, Nat.mul_comm]
  calc (shiftIn register byte).toNat
      = register.toNat <<< 8 % UInt64.size ||| byte.toNat % UInt64.size := by
        rw [whole, shiftIn, UInt64.toNat_or, UInt64.toNat_shiftLeft, UInt8.toNat_toUInt64]
        rfl
    _ = (register.toNat <<< 8 ||| byte.toNat) % UInt64.size := (Nat.or_mod_two_pow (n := 64)).symm
    _ = (byte.toNat + 256 * register.toNat) % UInt64.size := by rw [apart, Nat.add_comm]

theorem toNat_lowByte (register : UInt64) : (lowByte register).toNat = register.toNat % 256 := by
  rw [lowByte, UInt64.toNat_toUInt8, UInt64.toNat_and]
  calc (register.toNat &&& 2 ^ 8 - 1) % 2 ^ 8
      = register.toNat % 2 ^ 8 % 2 ^ 8 := by rw [Nat.and_two_pow_sub_one_eq_mod]
    _ = register.toNat % 2 ^ 8 := Nat.mod_mod _ _

theorem toNat_shiftRight (register : UInt64) : (register >>> 8).toNat = register.toNat / 256 := by
  rw [UInt64.toNat_shiftRight, Nat.shiftRight_eq_div_pow]
  rfl

/-- Shifting bytes in reads them: past the eighth, each pushes out the most significant one left. -/
theorem toNat_load (order : ByteOrder) (bytes : Bytes) :
    (order.load bytes).toNat = order.read bytes := by
  have lowestFirst (bytes : Bytes) : (little.load bytes).toNat = bytes.toNat % UInt64.size := by
    induction bytes with
    | nil => rfl
    | cons byte rest ih =>
      have last : little.load (byte :: rest) = shiftIn (little.load rest) byte := by simp [load]
      rw [last, toNat_shiftIn, ih, Bytes.toNat_cons, Nat.add_mod, Nat.mul_mod_mod, ← Nat.add_mod]
  cases order with
  | little => exact lowestFirst bytes
  | big =>
    have mirrored : big.load bytes = little.load bytes.reverse := by simp [load]
    rw [mirrored, lowestFirst, read, arrange]

/-- Shifting bytes out writes the value, whichever end is filled first. -/
theorem store_eq_write (order : ByteOrder) (length : Nat) (register : UInt64) :
    order.store length register = order.write length register.toNat := by
  induction length generalizing register with
  | zero => cases order <;> rfl
  | succ length ih =>
    have low : lowByte register = UInt8.ofNat register.toNat := by
      apply UInt8.toNat_inj.mp
      rw [toNat_lowByte, UInt8.toNat_ofNat']
    cases order with
    | little =>
      rw [store, low, ih, toNat_shiftRight]
      rfl
    | big =>
      rw [store, low, ih, toNat_shiftRight, write, write, arrange, arrange, Bytes.ofNat_succ,
        List.reverse_cons]

/-- What is written of a value, in either order and however many bytes, is read as its low bytes,
and there is nothing but zeros past the eighth. What is read of eight bytes or fewer is written as
they stood. The orders mirror each other, two strings of any lengths are read alike exactly if their
eight lowest digits agree, and all of this is what bytes do that are shifted into a register and out
of one. -/
theorem low_bytes_are_exchanged :
    (∀ (order : ByteOrder) (value : UInt64) (length : Nat),
      (order.write length value.toNat).length = length ∧
      order.read (order.write length value.toNat) = value.toNat % 2 ^ (8 * min length 8) ∧
      ∀ place, 8 ≤ place → order.digit (order.write length value.toNat) place = 0) ∧
    (∀ (order : ByteOrder) (bytes : Bytes), bytes.length ≤ 8 →
      order.write bytes.length (order.read bytes) = bytes) ∧
    (∀ bytes : Bytes, big.read bytes = little.read bytes.reverse) ∧
    (∀ (order : ByteOrder) (bytes other : Bytes), order.read bytes = order.read other ↔
      ∀ place < 8, order.digit bytes place = order.digit other place) ∧
    (∀ (order : ByteOrder) (bytes : Bytes), order.read bytes = (order.load bytes).toNat) ∧
    ∀ (order : ByteOrder) (value : UInt64) (length : Nat),
      order.write length value.toNat = order.store length value := by
  refine ⟨?_, fun order _ => order.write_read, fun _ => rfl, fun _ _ _ => read_eq_read_iff,
    fun order bytes => (order.toNat_load bytes).symm,
    fun order value length => (order.store_eq_write length value).symm⟩
  intro order value length
  refine ⟨order.length_write length value.toNat, order.read_write_min length value.toNat, ?_⟩
  intro place high
  exact order.digit_write_of_high length value.toNat_lt high

/-- Ten bytes, of which two do not fit a register, and three, which do not hold the value. -/
theorem long_and_short_bytes_are_exchanged :
    big.write 10 0x1122334455667788 = [0, 0, 0x11, 0x22, 0x33, 0x44, 0x55, 0x66, 0x77, 0x88] ∧
    big.digit (big.write 10 0x1122334455667788) 8 = 0 ∧
    little.read (little.write 3 0x1122334455667788) = 0x667788 ∧
    big.write 3 (big.read [0x80, 0, 1]) = [0x80, 0, 1] ∧
    big.read [9, 9, 1, 2, 3, 4, 5, 6, 7, 8] = big.read [1, 2, 3, 4, 5, 6, 7, 8] := by
  obtain ⟨written, rewritten, -, digits, -, stored⟩ := low_bytes_are_exchanged
  refine ⟨(stored .big 0x1122334455667788 10).trans (by decide),
    (written .big 0x1122334455667788 10).2.2 8 (by decide),
    (written .little 0x1122334455667788 3).2.1, rewritten .big [0x80, 0, 1] (by decide),
    (digits _ _ _).mpr (by decide)⟩

end Semihosting.ByteOrder
