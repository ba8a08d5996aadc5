import Semihosting.Proofs.Guarded.Words
import Semihosting.Proofs.TwosComplement

/-!
# What slots hold

A parameter keeps the low bytes of a 64-bit word, and its signed value is what these bytes hold in
two's complement. Main results: the two make up for each other, so a parameter comes back from its
signed value (`ofInt_signed`) and an integer from its parameter exactly if the slot can hold it
(`signed_ofInt_eq_iff`), for every word and whatever width is asked for
(`slots_keep_what_they_can_hold`).
-/
namespace Semihosting.Parameter

open TwosComplement (Holds Wraps modulus_eq)

theorem raw_ofNat (value width : Nat) :
    (ofNat value width).raw = value % 2 ^ (8 * clampWidth width) := by
  rw [ofNat, Nat.pow_mul]

theorem signed_ofNat (value width : Nat) :
    (ofNat value width).signed = Int.bmod value (256 ^ clampWidth width) := by
  rw [signed, raw_ofNat, Int.natCast_emod, Nat.pow_mul]
  exact Int.emod_bmod value _

theorem raw_ofInt (value : Int) (width : Nat) :
    ((ofInt value width).raw : Int) = value % 2 ^ (8 * clampWidth width) := by
  have low : ((value % 256 ^ clampWidth width).toNat : Int) =
      value % (256 ^ clampWidth width : Nat) := by
    rw [Int.natCast_pow]
    exact Int.toNat_of_nonneg (Int.emod_nonneg _ (Int.ne_of_gt (Int.pow_pos (by decide))))
  rw [ofInt, ofNat, Int.natCast_emod, low, Int.emod_emod, modulus_eq]

theorem signed_ofInt (value : Int) (width : Nat) :
    (ofInt value width).signed = value.bmod (256 ^ clampWidth width) := by
  rw [signed, raw_ofInt, ← modulus_eq]
  exact Int.emod_bmod value _

/-- An integer survives in a slot exactly if the width can hold it. -/
theorem signed_ofInt_eq_iff {value : Int} {width : Nat} :
    (ofInt value width).signed = value ↔ Holds (clampWidth width) value := by
  rw [signed_ofInt]
  exact TwosComplement.bmod_eq_self_iff (clampWidth_pos width)

/-- The sign changes no byte of the slot. -/
theorem ofInt_signed (parameter : Parameter) :
    ofInt parameter.signed parameter.width = parameter := by
  have width := clampWidth_eq_self parameter.width_pos parameter.width_le
  apply ext_raw_width
  · apply Int.ofNat.inj
    rw [Int.ofNat_eq_natCast, raw_ofInt, width, ← modulus_eq, signed, Int.bmod_emod]
    exact Int.emod_eq_of_lt (Int.natCast_nonneg _) (Int.ofNat_lt.mpr parameter.raw_lt)
  · exact width

/-- The low bytes of a 64-bit integer are those of the word that it stands in. -/
theorem ofInt_toInt (value : Int64) (width : Nat) :
    ofInt value.toInt width = ofNat value.toUInt64.toNat width := by
  apply ext_raw_width
  · apply Int.ofNat.inj
    rw [Int.ofNat_eq_natCast, raw_ofInt, ofNat, TwosComplement.toNat_toUInt64,
      Int.ofNat_eq_natCast, ByteOrder.word_mod (clampWidth_le width), modulus_eq]
  · rfl

/-- No slot is wider than a 64-bit integer. -/
theorem toInt_ofInt_signed (parameter : Parameter) :
    (Int64.ofInt parameter.signed).toInt = parameter.signed :=
  (TwosComplement.holds_bmod parameter.width_pos parameter.raw).toInt_ofInt parameter.width_le

/-- What a parameter has of a word, if it was made from it for a width that was asked for. -/
structure CutFrom (word : UInt64) (asked : UInt8) (parameter : Parameter) : Prop where
  width : parameter.width = max 1 (min 8 asked.toNat)
  raw : parameter.raw = word.toNat % 2 ^ (8 * parameter.width)
  /-- One integer in the range of the width is congruent to the word. -/
  signed : ∀ number, Wraps parameter.width word.toNat number ↔ number = parameter.signed
  /-- The word is masked, and no shift leaves it. -/
  masked : Guarded.makeParameter word.toNat asked.toNat = .ok parameter
  extended : Guarded.signExtend parameter.raw parameter.width = .ok parameter.signed

theorem cutFrom_ofNat (word : UInt64) (asked : UInt8) :
    CutFrom word asked (ofNat word.toNat asked.toNat) where
  width := rfl
  raw := raw_ofNat word.toNat asked.toNat
  signed number := by
    rw [signed_ofNat]
    exact TwosComplement.wraps_iff (clampWidth_pos asked.toNat)
  masked := Guarded.makeParameter_eq word.toNat asked.toNat
  extended :=
    let parameter := ofNat word.toNat asked.toNat
    Guarded.signExtend_eq parameter.width_pos parameter.width_le parameter.raw_lt

/-- Whatever word and width are asked for, a parameter has the nearest width from one to eight bytes
and the word modulo what this width has room for, and its signed value is the only integer in the
range of this width that is congruent to the word; masks and shifts come to the same. Every
parameter comes back from its signed value, which is a 64-bit integer, and such an integer comes
back from its parameter exactly if it is in the range of the width. -/
theorem slots_keep_what_they_can_hold :
    (∀ (word : UInt64) (asked : UInt8), CutFrom word asked (ofNat word.toNat asked.toNat)) ∧
    (∀ parameter : Parameter, ∃ value : Int64,
      value.toInt = parameter.signed ∧ ofInt value.toInt parameter.width = parameter) ∧
    ∀ (value : Int64) (asked : UInt8),
      ofInt value.toInt asked.toNat = ofNat value.toUInt64.toNat asked.toNat ∧
      ((ofInt value.toInt asked.toNat).signed = value.toInt ↔
        Holds (max 1 (min 8 asked.toNat)) value.toInt) := by
  refine ⟨cutFrom_ofNat, ?_, ?_⟩
  · intro parameter
    have word := parameter.toInt_ofInt_signed
    refine ⟨Int64.ofInt parameter.signed, word, ?_⟩
    rw [word]
    exact parameter.ofInt_signed
  · intro value asked
    exact ⟨ofInt_toInt value asked.toNat, signed_ofInt_eq_iff⟩

-- Three bytes hold the least integer of their range, and the one past the greatest wraps to it.
example : (ofInt (-0x800000) 3).signed = -0x800000 ∧ (ofInt 0x800000 3).signed = -0x800000 := by
  decide

end Semihosting.Parameter
