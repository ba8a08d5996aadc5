import Semihosting.Parameter
import Semihosting.Proofs.Guarded.Operations

/-!
# Guarded words

The content of a slot is masked out of a 64-bit word, and its sign is extended over the word by a
shift up and a shift down. The widths of slots keep all these shifts inside the word. Main
statements: every word makes a parameter (`makeParameter_eq`), and the shifts leave the integer that
the content is in two's complement (`signExtend_eq`).
-/
namespace Semihosting.Guarded

/-- The low bytes of a 64-bit word. -/
def widthMask (width : Nat) : Guarded Nat :=
  if 8 ≤ width then .ok (UInt64.size - 1)
  else do
    let places ← product 32 width 8
    let bit ← shiftLeft 1 places
    difference bit 1

/-- The low bytes of a word in a slot of the nearest possible width. -/
def makeParameter (raw width : Nat) : Guarded Parameter := do
  let width := Parameter.clampWidth width
  let mask ← widthMask width
  let content := raw &&& mask
  -- A parameter carries these bounds, so building one outside them is a trap.
  if fits : 0 < width ∧ width ≤ 8 ∧ content < 256 ^ width then
    .ok ⟨content, width, fits.1, fits.2.1, fits.2.2⟩
  else .error (.trapped (.misfit content width))

/-- The integer whose two's complement stands in the low bytes of a word. -/
def signExtend (raw width : Nat) : Guarded Int :=
  if 8 ≤ width then .ok (Int.bmod raw UInt64.size)
  else do
    let bits ← product 32 width 8
    let places ← difference 64 bits
    let high ← shiftLeft raw places
    shiftRight (Int.bmod high UInt64.size) places

theorem pow_width (width : Nat) : 256 ^ width = 2 ^ (width * 8) := by
  rw [Nat.mul_comm, Nat.pow_mul]

/-- The mask leaves the values of a slot. The full word has a case of its own, since a shift by all
of it would trap. -/
theorem widthMask_eq {width : Nat} (short : width ≤ 8) :
    widthMask width = .ok (256 ^ width - 1) := by
  by_cases full : 8 ≤ width
  · obtain rfl : width = 8 := by omega
    rfl
  · have small : width * 8 < 2 ^ 32 := by omega
    have narrow : width * 8 < 64 := by omega
    have bit : 1 * 2 ^ (width * 8) % UInt64.size = 256 ^ width := by
      rw [Nat.one_mul, pow_width, Nat.mod_eq_of_lt]
      exact Nat.pow_lt_pow_right (by decide) narrow
    have positive : 1 ≤ 256 ^ width := Nat.pow_pos (by decide)
    rw [widthMask, if_neg full, product, within_of small, ok_bind, shiftLeft, within_of narrow, bit,
      ok_bind, difference, within_of positive]

/-- Every word makes a parameter, whatever width is asked for. -/
theorem makeParameter_eq (raw width : Nat) :
    makeParameter raw width = .ok (Parameter.ofNat raw width) := by
  have content : raw &&& (256 ^ Parameter.clampWidth width - 1) =
      raw % 256 ^ Parameter.clampWidth width := by
    rw [pow_width, Nat.and_two_pow_sub_one_eq_mod]
  rw [makeParameter, widthMask_eq (Parameter.clampWidth_le width), ok_bind]
  simp only [content]
  rw [dif_pos ⟨Parameter.clampWidth_pos width, Parameter.clampWidth_le width,
    (Parameter.ofNat raw width).raw_lt⟩]
  rfl

theorem bmod_of_half_le {value modulus : Nat} (high : modulus ≤ 2 * value)
    (inside : value < modulus) : Int.bmod value modulus = value - modulus := by
  rw [Int.bmod_def, Int.emod_eq_of_lt (by omega) (by omega), if_neg (by omega)]

/-- Moved to the top of its word, a number keeps its sign. -/
theorem bmod_top {half factor raw : Nat} (word : 2 * half * factor = UInt64.size)
    (small : raw < 2 * half) :
    Int.bmod (raw * factor : Nat) UInt64.size = Int.bmod raw (2 * half) * factor := by
  have positive : 0 < factor := Nat.pos_of_ne_zero (by rintro rfl; simp at word)
  have inside : raw * factor < UInt64.size := word ▸ Nat.mul_lt_mul_of_pos_right small positive
  rw [Nat.mul_assoc] at word
  -- A number in the lower half of its range lands in the lower half of the word.
  by_cases low : raw < half
  · have low' : raw * factor < half * factor := Nat.mul_lt_mul_of_pos_right low positive
    rw [Int.bmod_eq_of_le (by omega) (by omega), Int.bmod_eq_of_le (by omega) (by omega)]
    exact Int.natCast_mul raw factor
  · have high : half * factor ≤ raw * factor := Nat.mul_le_mul_right factor (Nat.le_of_not_lt low)
    rw [bmod_of_half_le (by omega) inside, bmod_of_half_le (by omega) small, Int.sub_mul, ← word,
      Int.natCast_mul, Int.natCast_mul, Int.natCast_mul, Int.natCast_mul, Int.mul_assoc]

/-- The shifts give the integer that so many bytes hold in two's complement. -/
theorem signExtend_eq {raw width : Nat} (positive : 0 < width) (short : width ≤ 8)
    (small : raw < 256 ^ width) : signExtend raw width = .ok (Int.bmod raw (256 ^ width)) := by
  by_cases full : 8 ≤ width
  · obtain rfl : width = 8 := by omega
    rfl
  · have bits : width * 8 < 2 ^ 32 := by omega
    have below : width * 8 ≤ 64 := by omega
    have narrow : 64 - width * 8 < 64 := by omega
    -- The word is cut into the half of the range and the places that the number moves up.
    have factor : (0 : Int) < (2 ^ (64 - width * 8) : Nat) := by
      exact_mod_cast Nat.two_pow_pos (64 - width * 8)
    have half : 256 ^ width = 2 * 2 ^ (width * 8 - 1) := by
      rw [pow_width, ← Nat.pow_succ']
      congr 1
      omega
    have word : 2 * 2 ^ (width * 8 - 1) * 2 ^ (64 - width * 8) = UInt64.size := by
      rw [← half, pow_width, ← Nat.pow_add, Nat.add_sub_cancel' below]
    have inside : raw * 2 ^ (64 - width * 8) < UInt64.size := by
      calc raw * 2 ^ (64 - width * 8) < 256 ^ width * 2 ^ (64 - width * 8) :=
            Nat.mul_lt_mul_of_pos_right small (Nat.two_pow_pos _)
        _ = UInt64.size := by rw [half, word]
    rw [half] at small
    rw [signExtend, if_neg full, product, within_of bits, ok_bind, difference, within_of below,
      ok_bind, shiftLeft, within_of narrow, ok_bind, shiftRight, within_of narrow,
      Nat.mod_eq_of_lt inside, bmod_top word small, Int.shiftRight_eq_div_pow,
      Int.mul_ediv_cancel _ (Int.ne_of_gt factor), half]

-- A width of zero would ask for a shift by the whole word.
example : signExtend 5 0 = .error (.trapped (.shift 64)) := rfl

end Semihosting.Guarded
