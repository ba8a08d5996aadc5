import Semihosting.Json.Number

/-!
# How numbers are spelled

An integer has one spelling. Every other number keeps the literal it was written as, which is a
whole part, perhaps with a sign in front, and a fraction or an exponent behind it. Main statement: a
number is read from exactly the literals of this grammar (`ofChars?_eq_some_iff`).
-/
namespace Semihosting.Json

/-- A run that what follows does not continue is what is taken for as long as its property holds. -/
theorem span_run {holds : Char → Bool} {run rest : List Char} (inside : ∀ char ∈ run, holds char)
    (behind : ∀ char ∈ rest.head?, holds char = false) :
    (run ++ rest).takeWhile holds = run ∧ (run ++ rest).dropWhile holds = rest := by
  rw [List.takeWhile_append_of_pos inside, List.dropWhile_append_of_pos inside]
  cases rest with
  | nil => simp
  | cons char rest => simp [behind char rfl]

theorem behind_dropWhile {holds : Char → Bool} {chars : List Char} :
    ∀ char ∈ (chars.dropWhile holds).head?, holds char = false := by
  intro char first
  have stops := List.head?_dropWhile_not holds chars
  rwa [Option.mem_def.mp first] at stops

namespace Number

open Decimal (isDigits ofDigits)

/-! ### Whole parts -/

/-- The whole part of a number has no leading zero, unless it is zero. -/
theorem isWhole_iff {digits : List Char} :
    isWhole digits = true ↔
      digits = ['0'] ∨ ∃ first rest, digits = first :: rest ∧ first ≠ '0' := by
  unfold isWhole
  split
  · simp
  · simp
  next first rest single =>
    simp only [decide_eq_true_eq, List.cons.injEq]
    constructor
    · intro ne
      exact Or.inr ⟨first, rest, ⟨rfl, rfl⟩, ne⟩
    · rintro (⟨rfl, rfl⟩ | ⟨_, _, ⟨rfl, rfl⟩, ne⟩)
      · exact absurd rfl (single rfl)
      · exact ne

theorem digitChar_of_isDigit {digit : Char} (decimal : digit.isDigit = true) :
    digit.toNat - '0'.toNat < 10 ∧ Nat.digitChar (digit.toNat - '0'.toNat) = digit := by
  have range : '0'.toNat ≤ digit.toNat ∧ digit.toNat ≤ '9'.toNat := by
    simpa [Char.isDigit, UInt32.le_iff_toNat_le] using decimal
  have zero : '0'.toNat = 48 := rfl
  have nine : '9'.toNat = 57 := rfl
  have small : digit.toNat - '0'.toNat < 10 := by omega
  refine ⟨small, Char.toNat_inj.mp ?_⟩
  rw [Nat.toNat_digitChar_of_lt_ten small]
  omega

/-- Digits behind a number that is not zero are digits of a greater one. -/
theorem toDigits_ofDigitChars {digits : List Char} {before : Nat} (positive : 0 < before)
    (decimal : ∀ digit ∈ digits, digit.isDigit = true) :
    Nat.toDigits 10 (Nat.ofDigitChars 10 digits before) = Nat.toDigits 10 before ++ digits := by
  induction digits generalizing before with
  | nil => simp
  | cons digit digits ih =>
    obtain ⟨own, others⟩ := List.forall_mem_cons.mp decimal
    obtain ⟨small, same⟩ := digitChar_of_isDigit own
    have longer : Nat.toDigits 10 (10 * before + (digit.toNat - '0'.toNat)) =
        Nat.toDigits 10 before ++ [digit] := by
      rw [← Nat.toDigits_append_toDigits (by decide) positive small,
        Nat.toDigits_of_lt_base small, same]
    rw [Nat.ofDigitChars_cons, ih (by omega) others, longer, List.append_assoc,
      List.singleton_append]

/-- The digits of a whole part are those of its number. -/
theorem toDigits_ofDigits {digits : List Char} (whole : isWhole digits = true)
    (decimal : ∀ digit ∈ digits, digit.isDigit = true) :
    Nat.toDigits 10 (ofDigits digits) = digits := by
  rcases isWhole_iff.mp whole with rfl | ⟨first, rest, rfl, ne⟩
  · rfl
  · obtain ⟨own, others⟩ := List.forall_mem_cons.mp decimal
    obtain ⟨small, same⟩ := digitChar_of_isDigit own
    have positive : 0 < first.toNat - '0'.toNat := by
      apply Nat.pos_of_ne_zero
      intro zero
      rw [zero] at same
      exact ne same.symm
    rw [ofDigits, Nat.ofDigitChars_cons, Nat.mul_zero, Nat.zero_add,
      toDigits_ofDigitChars positive others, Nat.toDigits_of_lt_base small, same,
      List.singleton_append]

@[simp] theorem ofDigits_toDigits (value : Nat) : ofDigits (Nat.toDigits 10 value) = value :=
  Nat.ofDigitChars_ten_toDigits

theorem isDigit_of_mem (value : Nat) : ∀ digit ∈ Nat.toDigits 10 value, digit.isDigit = true :=
  fun _ member => Nat.isDigit_of_mem_toDigits (by decide) (by decide) member

theorem exists_first {value : Nat} (positive : 0 < value) :
    ∃ first rest, Nat.toDigits 10 value = first :: rest ∧ first ≠ '0' := by
  induction value using Nat.strongRecOn with
  | ind value ih =>
    rcases Nat.lt_or_ge value 10 with small | large
    · refine ⟨Nat.digitChar value, [], Nat.toDigits_of_lt_base small, ?_⟩
      simpa using Nat.ne_of_gt positive
    · obtain ⟨first, rest, digits, ne⟩ := ih (value / 10) (by omega) (by omega)
      refine ⟨first, rest ++ [Nat.digitChar (value % 10)], ?_, ne⟩
      rw [Nat.toDigits_of_base_le (by decide) large, digits, List.cons_append]

theorem toDigits_eq_zero_iff {value : Nat} : Nat.toDigits 10 value = ['0'] ↔ value = 0 := by
  constructor
  · intro zero
    rw [← ofDigits_toDigits value, zero]
    rfl
  · rintro rfl
    rfl

theorem isWhole_toDigits (value : Nat) : isWhole (Nat.toDigits 10 value) = true := by
  rw [isWhole_iff]
  rcases Nat.eq_zero_or_pos value with rfl | positive
  · exact Or.inl rfl
  · exact Or.inr (exists_first positive)

/-! ### The grammar -/

inductive Fraction : List Char → Prop
  | none : Fraction []
  | point {digits} : isDigits digits = true → Fraction ('.' :: digits)

inductive Exponent : List Char → Prop
  | none : Exponent []
  | bare {mark digits} : mark ∈ ['e', 'E'] → isDigits digits = true → Exponent (mark :: digits)
  | signed {mark sign digits} : mark ∈ ['e', 'E'] → sign ∈ ['+', '-'] → isDigits digits = true →
      Exponent (mark :: sign :: digits)

def signed (negative : Bool) (text : List Char) : List Char :=
  if negative then '-' :: text else text

/-- The numbers and their literals. -/
inductive Spelled : Scalar → List Char → Prop
  | integer (value : Int) : Spelled (.integer value) (write value)
  | minusZero : Spelled (.real ['-', '0']) ['-', '0']
  | real {fraction exponent literal} (negative : Bool) (whole : Nat) : Fraction fraction →
      Exponent exponent → fraction ++ exponent ≠ [] →
      literal = signed negative (Nat.toDigits 10 whole ++ (fraction ++ exponent)) →
      Spelled (.real literal) literal

theorem isExponent_iff {chars : List Char} : isExponent chars = true ↔ Exponent chars := by
  constructor
  · intro accepted
    unfold isExponent at accepted
    split at accepted
    · exact .none
    all_goals
      simp only [Bool.and_eq_true, Bool.or_eq_true, decide_eq_true_eq] at accepted
      obtain ⟨mark, digits⟩ := accepted
    · exact .signed (by simpa using mark) (by simp) digits
    · exact .signed (by simpa using mark) (by simp) digits
    · exact .bare (by simpa using mark) digits
  · intro exponent
    cases exponent with
    | none => rfl
    | bare mark digits =>
      unfold isExponent
      split
      · rfl
      -- A sign is no digit, so the digits are not read as a sign and others.
      next same =>
        cases same
        simp [isDigits] at digits
      next same =>
        cases same
        simp [isDigits] at digits
      next same =>
        cases same
        simpa [digits] using mark
    | signed mark sign digits =>
      simp only [List.mem_cons, List.not_mem_nil, or_false] at sign
      rcases sign with rfl | rfl <;> simpa [isExponent, digits] using mark

theorem Exponent.head {chars : List Char} (exponent : Exponent chars) :
    ∀ char ∈ chars.head?, char ∈ ['e', 'E'] := by
  cases exponent with
  | none => simp
  | bare mark => simpa using mark
  | signed mark => simpa using mark

theorem not_isDigit_of_mem {char : Char} (mark : char ∈ ['.', 'e', 'E']) :
    char.isDigit = false := by
  simp only [List.mem_cons, List.not_mem_nil, or_false] at mark
  rcases mark with rfl | rfl | rfl <;> rfl

/-- Behind the whole part there may be a fraction, and behind that an exponent. -/
theorem isTail_iff {chars : List Char} :
    isTail chars = true ↔ ∃ fraction exponent, chars = fraction ++ exponent ∧
      Fraction fraction ∧ Exponent exponent := by
  constructor
  · intro accepted
    unfold isTail at accepted
    split at accepted
    next rest =>
      simp only [Bool.and_eq_true, decide_eq_true_eq] at accepted
      obtain ⟨some, exponent⟩ := accepted
      refine ⟨'.' :: rest.takeWhile Char.isDigit, rest.dropWhile Char.isDigit, ?_, .point ?_,
        isExponent_iff.mp exponent⟩
      · rw [List.cons_append, List.takeWhile_append_dropWhile]
      · simp [isDigits, some]
    · exact ⟨[], chars, rfl, .none, isExponent_iff.mp accepted⟩
  · rintro ⟨_, exponent, rfl, fraction, spelled⟩
    cases fraction with
    | none =>
      -- An exponent never opens with a point, so it is not taken for a fraction.
      have noPoint : ∀ rest, exponent ≠ '.' :: rest := by
        rintro rest rfl
        exact absurd (spelled.head '.' rfl) (by decide)
      rw [List.nil_append, isTail]
      · exact isExponent_iff.mpr spelled
      · exact noPoint
    | @point digits decimal =>
      simp only [isDigits, Bool.and_eq_true, decide_eq_true_eq, List.all_eq_true] at decimal
      have ends : ∀ char ∈ exponent.head?, char.isDigit = false := fun char member =>
        not_isDigit_of_mem (List.mem_cons_of_mem _ (spelled.head char member))
      obtain ⟨taken, left⟩ := span_run decimal.2 ends
      rw [List.cons_append, isTail, taken, left, isExponent_iff.mpr spelled]
      simpa using decimal.1

theorem head_of_isTail {chars : List Char} (tail : isTail chars = true) :
    ∀ char ∈ chars.head?, char ∈ ['.', 'e', 'E'] := by
  obtain ⟨_, exponent, rfl, fraction, spelled⟩ := isTail_iff.mp tail
  cases fraction with
  | none => exact fun char member => List.mem_cons_of_mem _ (spelled.head char member)
  | point => simp

/-! ### Reading -/

theorem unsigned?_toDigits {negative : Bool} {written tail : List Char} (whole : Nat)
    (ends : ∀ char ∈ tail.head?, char.isDigit = false) :
    unsigned? negative written (Nat.toDigits 10 whole ++ tail) =
      if tail ≠ [] then if isTail tail then some (.real written) else none
      else if negative then
        if whole = 0 then some (.real written) else some (.integer (-(whole : Int)))
      else some (.integer whole) := by
  obtain ⟨taken, left⟩ := span_run (isDigit_of_mem whole) ends
  simp only [unsigned?, taken, left, isWhole_toDigits, toDigits_eq_zero_iff, ofDigits_toDigits,
    Bool.not_true, Bool.false_eq_true, if_false]

theorem exists_of_unsigned? {negative : Bool} {written text : List Char} {value : Scalar}
    (read : unsigned? negative written text = some value) :
    ∃ whole tail, text = Nat.toDigits 10 whole ++ tail ∧
      ∀ char ∈ tail.head?, char.isDigit = false := by
  have whole : isWhole (text.takeWhile Char.isDigit) = true := by
    cases judged : isWhole (text.takeWhile Char.isDigit) with
    | true => rfl
    | false => simp [unsigned?, judged] at read
  have decimal : ∀ digit ∈ text.takeWhile Char.isDigit, digit.isDigit = true :=
    List.all_eq_true.mp List.all_takeWhile
  refine ⟨ofDigits (text.takeWhile Char.isDigit), text.dropWhile Char.isDigit, ?_,
    behind_dropWhile⟩
  rw [toDigits_ofDigits whole decimal, List.takeWhile_append_dropWhile]

theorem write_neg {whole : Nat} (positive : whole ≠ 0) :
    write (-(whole : Int)) = '-' :: Nat.toDigits 10 whole := by
  obtain ⟨before, rfl⟩ := Nat.exists_eq_succ_of_ne_zero positive
  rfl

/-- A number that is read is spelled by its sign and its digits as they stand. -/
theorem spelled_of_unsigned? {negative : Bool} {text : List Char} {value : Scalar}
    (read : unsigned? negative (signed negative text) text = some value) :
    Spelled value (signed negative text) := by
  obtain ⟨whole, tail, rfl, ends⟩ := exists_of_unsigned? read
  rw [unsigned?_toDigits whole ends] at read
  split at read
  next more =>
    split at read
    next accepted =>
      cases read
      obtain ⟨fraction, exponent, rfl, fractional, exponential⟩ := isTail_iff.mp accepted
      exact .real negative whole fractional exponential more rfl
    · cases read
  next nothing =>
    -- Without a tail the number is an integer, and a negative zero is none.
    obtain rfl := Decidable.not_not.mp nothing
    rw [List.append_nil] at read ⊢
    split at read
    next negated =>
      subst negated
      split at read
      next zero =>
        cases read
        rw [zero]
        exact .minusZero
      next positive =>
        cases read
        rw [signed, if_pos rfl, ← write_neg positive]
        exact .integer _
    next natural =>
      cases read
      rw [signed, if_neg natural]
      exact .integer (.ofNat whole)

theorem exists_ofChars?_eq (chars : List Char) :
    ∃ negative text, chars = signed negative text ∧
      ofChars? chars = unsigned? negative (signed negative text) text := by
  unfold ofChars?
  split
  next rest => exact ⟨true, rest, rfl, rfl⟩
  · exact ⟨false, chars, rfl, rfl⟩

theorem ofChars?_signed (negative : Bool) (whole : Nat) (tail : List Char) :
    ofChars? (signed negative (Nat.toDigits 10 whole ++ tail)) =
      unsigned? negative (signed negative (Nat.toDigits 10 whole ++ tail))
        (Nat.toDigits 10 whole ++ tail) := by
  cases negative with
  | true => rfl
  | false =>
    obtain ⟨first, rest, digits⟩ :=
      List.exists_cons_of_ne_nil (Nat.toDigits_ne_nil : Nat.toDigits 10 whole ≠ [])
    -- A sign is not a digit.
    have unlike : first ≠ '-' := by
      rintro rfl
      have digit := isDigit_of_mem whole '-' (by simp [digits])
      exact absurd digit (by decide)
    rw [digits, signed, if_neg Bool.false_ne_true, List.cons_append]
    unfold ofChars?
    split
    next same => exact absurd (List.cons.inj same).1 unlike
    · rfl

/-- Numbers are read from the literals of the grammar, and from no others. -/
theorem ofChars?_eq_some_iff {chars : List Char} {value : Scalar} :
    ofChars? chars = some value ↔ Spelled value chars := by
  constructor
  · intro read
    obtain ⟨negative, text, rfl, unsigned⟩ := exists_ofChars?_eq chars
    rw [unsigned] at read
    exact spelled_of_unsigned? read
  · intro spelled
    cases spelled with
    | integer value =>
      cases value with
      | ofNat whole =>
        have read := ofChars?_signed false whole []
        rw [unsigned?_toDigits whole (by simp), List.append_nil] at read
        exact read
      | negSucc before =>
        have read := ofChars?_signed true (before + 1) []
        rw [unsigned?_toDigits (before + 1) (by simp), List.append_nil] at read
        exact read
    | minusZero => rfl
    | real negative whole fraction exponent more written =>
      have tail := isTail_iff.mpr ⟨_, _, rfl, fraction, exponent⟩
      rw [written, ofChars?_signed, unsigned?_toDigits whole fun char member =>
        not_isDigit_of_mem (head_of_isTail tail char member), if_pos more, if_pos tail]

/-! ### Characters -/

def isNumeric (char : Char) : Bool :=
  char.isDigit || char ∈ ['+', '-', '.', 'e', 'E']

theorem isNumeric_of_isDigits {digits : List Char} (decimal : isDigits digits = true) :
    ∀ char ∈ digits, isNumeric char = true := by
  intro char member
  simp only [isDigits, Bool.and_eq_true, List.all_eq_true] at decimal
  rw [isNumeric, decimal.2 char member, Bool.true_or]

theorem isNumeric_toDigits (whole : Nat) :
    ∀ char ∈ Nat.toDigits 10 whole, isNumeric char = true := by
  intro char member
  rw [isNumeric, isDigit_of_mem whole char member, Bool.true_or]

theorem Fraction.isNumeric {chars : List Char} (fraction : Fraction chars) :
    ∀ char ∈ chars, isNumeric char = true := by
  cases fraction with
  | none => simp
  | point digits => exact List.forall_mem_cons.mpr ⟨rfl, isNumeric_of_isDigits digits⟩

theorem Exponent.isNumeric {chars : List Char} (exponent : Exponent chars) :
    ∀ char ∈ chars, isNumeric char = true := by
  have numeric {char : Char} (mark : char ∈ ['e', 'E', '+', '-']) :
      Number.isNumeric char = true := by
    simp only [List.mem_cons, List.not_mem_nil, or_false] at mark
    rcases mark with rfl | rfl | rfl | rfl <;> rfl
  cases exponent with
  | none => simp
  | bare mark digits =>
    refine List.forall_mem_cons.mpr ⟨numeric ?_, isNumeric_of_isDigits digits⟩
    exact List.mem_append_left ['+', '-'] mark
  | signed mark sign digits =>
    refine List.forall_mem_cons.mpr ⟨numeric ?_, List.forall_mem_cons.mpr ⟨numeric ?_, ?_⟩⟩
    · exact List.mem_append_left ['+', '-'] mark
    · exact List.mem_append_right ['e', 'E'] sign
    · exact isNumeric_of_isDigits digits

theorem isNumeric_signed {negative : Bool} {text : List Char}
    (numeric : ∀ char ∈ text, isNumeric char = true) :
    ∀ char ∈ signed negative text, isNumeric char = true := by
  cases negative with
  | false => exact numeric
  | true => exact List.forall_mem_cons.mpr ⟨rfl, numeric⟩

theorem Spelled.isNumeric {value : Scalar} {chars : List Char} (spelled : Spelled value chars) :
    ∀ char ∈ chars, isNumeric char = true := by
  cases spelled with
  | integer value =>
    cases value with
    | ofNat whole => exact isNumeric_toDigits whole
    | negSucc before => exact List.forall_mem_cons.mpr ⟨rfl, isNumeric_toDigits _⟩
  | minusZero => simp [Number.isNumeric]
  | real negative whole fraction exponent _ written =>
    rw [written]
    apply isNumeric_signed
    simp only [List.forall_mem_append]
    exact ⟨isNumeric_toDigits whole, fraction.isNumeric, exponent.isNumeric⟩

end Number

end Semihosting.Json
