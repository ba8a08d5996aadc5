import Semihosting.ByteOrder

/-!
# Integers in two's complement

So many bytes hold the integers of a half-open range around zero, and every other integer wraps to
the one in the range that is congruent to it. Main statements: the wrapped integer is the balanced
remainder (`TwosComplement.wraps_iff`), it is what is read where a value was written
(`ByteOrder.readSigned_writeSigned`), and what was read is written as it stood
(`ByteOrder.writeSigned_readSigned`).
-/
namespace Semihosting

namespace TwosComplement

/-- So many bytes can hold the integer. -/
structure Holds (bytes : Nat) (number : Int) : Prop where
  low : -2 ^ (8 * bytes - 1) ≤ number
  high : number < 2 ^ (8 * bytes - 1)

/-- So many bytes keep the second integer of the first. -/
structure Wraps (bytes : Nat) (number wrapped : Int) : Prop where
  holds : Holds bytes wrapped
  congruent : wrapped % 2 ^ (8 * bytes) = number % 2 ^ (8 * bytes)

variable {bytes : Nat} {number wrapped : Int}

theorem modulus_eq (bytes : Nat) : ((256 ^ bytes : Nat) : Int) = 2 ^ (8 * bytes) := by
  rw [Int.natCast_pow, Int.pow_mul]
  rfl

theorem modulus_eq_twice (positive : 0 < bytes) :
    (2 : Int) ^ (8 * bytes) = 2 * 2 ^ (8 * bytes - 1) := by
  obtain ⟨bits, width⟩ : ∃ bits, 8 * bytes = bits + 1 := ⟨8 * bytes - 1, by omega⟩
  rw [width, Nat.add_sub_cancel, Int.pow_succ, Int.mul_comm]

/-- The balanced remainder leaves alone just the integers that so many bytes can hold. -/
theorem bmod_eq_self_iff (positive : 0 < bytes) :
    number.bmod (256 ^ bytes) = number ↔ Holds bytes number := by
  have modulus := modulus_eq bytes
  have twice := modulus_eq_twice positive
  have full : 0 < 256 ^ bytes := Nat.pow_pos (by decide)
  constructor
  · intro same
    have low := Int.le_bmod (x := number) full
    have high := Int.bmod_lt (x := number) full
    rw [same] at low high
    constructor <;> omega
  · intro holds
    have low := holds.low
    have high := holds.high
    apply Int.bmod_eq_of_le <;> omega

theorem holds_bmod (positive : 0 < bytes) (number : Int) :
    Holds bytes (number.bmod (256 ^ bytes)) :=
  (bmod_eq_self_iff positive).mp (by rw [Int.bmod_bmod])

/-- Among the integers that so many bytes can hold, exactly one is congruent to a given one. -/
theorem wraps_iff (positive : 0 < bytes) :
    Wraps bytes number wrapped ↔ wrapped = number.bmod (256 ^ bytes) := by
  constructor
  · intro wraps
    have congruent := wraps.congruent
    rw [← modulus_eq] at congruent
    calc wrapped = wrapped.bmod (256 ^ bytes) := ((bmod_eq_self_iff positive).mpr wraps.holds).symm
      _ = (wrapped % (256 ^ bytes : Nat)).bmod (256 ^ bytes) := (Int.emod_bmod _ _).symm
      _ = (number % (256 ^ bytes : Nat)).bmod (256 ^ bytes) := by rw [congruent]
      _ = number.bmod (256 ^ bytes) := Int.emod_bmod _ _
  · rintro rfl
    refine ⟨holds_bmod positive number, ?_⟩
    rw [← modulus_eq]
    exact Int.bmod_emod

/-- Eight bytes at most hold nothing that is not a 64-bit integer. -/
theorem Holds.toInt_ofInt (holds : Holds bytes number) (short : bytes ≤ 8) :
    (Int64.ofInt number).toInt = number := by
  have widest : (2 : Int) ^ (8 * bytes - 1) ≤ 2 ^ 63 := by
    have powers : 2 ^ (8 * bytes - 1) ≤ 2 ^ 63 := Nat.pow_le_pow_right (by decide) (by omega)
    exact_mod_cast powers
  have low := holds.low
  have high := holds.high
  exact Int64.toInt_ofInt_of_le (by omega) (by omega)

/-- The word of a 64-bit integer. -/
theorem toNat_toUInt64 (value : Int64) :
    value.toUInt64.toNat = (value.toInt % UInt64.size).toNat := by
  have word := BitVec.toNat_ofInt (n := 64) value.toBitVec.toInt
  rw [BitVec.ofInt_toInt] at word
  exact word

/-- What so many bytes keep of a 64-bit integer. -/
def keep (bytes : Nat) (value : Int64) : Int64 := Int64.ofInt (value.toInt.bmod (256 ^ bytes))

theorem toInt_keep (positive : 0 < bytes) (short : bytes ≤ 8) (value : Int64) :
    (keep bytes value).toInt = value.toInt.bmod (256 ^ bytes) :=
  (holds_bmod positive value.toInt).toInt_ofInt short

/-- Nothing is lost of a 64-bit integer exactly if so many bytes can hold it. -/
theorem keep_eq_self_iff (positive : 0 < bytes) (short : bytes ≤ 8) (value : Int64) :
    keep bytes value = value ↔ Holds bytes value.toInt := by
  rw [← Int64.toInt_inj, toInt_keep positive short, bmod_eq_self_iff positive]

end TwosComplement

namespace ByteOrder

/-- Writing a signed integer is writing the word in which it is kept. -/
theorem writeSigned_toInt (order : ByteOrder) (length : Nat) (value : Int64) :
    order.writeSigned length value.toInt = order.write length value.toUInt64.toNat := by
  rw [writeSigned, TwosComplement.toNat_toUInt64]

/-- A 64-bit word has the low bytes of the integer that it was cut from. -/
theorem word_mod {length : Nat} (short : length ≤ 8) (value : Int) :
    ((value % UInt64.size).toNat % 256 ^ length : Nat) = value % (256 ^ length : Nat) := by
  have divides : 256 ^ length ∣ UInt64.size := Nat.pow_dvd_pow 256 short
  have word : ((value % UInt64.size).toNat : Int) = value % UInt64.size :=
    Int.toNat_of_nonneg (Int.emod_nonneg _ (by decide))
  rw [Int.natCast_emod, word]
  exact Int.emod_emod_of_dvd value (Int.natCast_dvd_natCast.mpr divides)

/-- What is read where a value was written is what the bytes keep of the value. -/
theorem readSigned_writeSigned (order : ByteOrder) {length : Nat} (short : length ≤ 8)
    (value : Int) :
    order.readSigned (order.writeSigned length value) = value.bmod (256 ^ length) := by
  rw [readSigned, length_writeSigned, writeSigned, read_write_of_le order short, word_mod short,
    Int.emod_bmod]

/-- Reading extends the sign and writing cuts it off again, so every pattern of bits comes back. -/
theorem writeSigned_readSigned (order : ByteOrder) {bytes : Bytes} (short : bytes.length ≤ 8) :
    order.writeSigned bytes.length (order.readSigned bytes) = bytes := by
  have fits := order.read_lt_of_length short
  -- The extended sign does not change the low bytes.
  have low : (order.readSigned bytes % UInt64.size).toNat % 256 ^ bytes.length = order.read bytes := by
    apply Int.ofNat.inj
    rw [Int.ofNat_eq_natCast, word_mod short, readSigned, Int.bmod_emod]
    exact Int.emod_eq_of_lt (Int.natCast_nonneg _) (Int.ofNat_lt.mpr fits)
  calc order.writeSigned bytes.length (order.readSigned bytes)
      = order.write bytes.length (order.read bytes) := by rw [writeSigned, ← write_mod, low]
    _ = bytes := order.write_read short

/-- The signed integer of at most eight bytes is a 64-bit one. -/
theorem toInt_readSigned (order : ByteOrder) {bytes : Bytes} (positive : 0 < bytes.length)
    (short : bytes.length ≤ 8) :
    (Int64.ofInt (order.readSigned bytes)).toInt = order.readSigned bytes :=
  (TwosComplement.holds_bmod positive (order.read bytes)).toInt_ofInt short

end ByteOrder

end Semihosting
