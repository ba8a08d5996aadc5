import Semihosting.Json.Text

/-!
# How texts are quoted

Between quotes, most characters may stand for themselves, some have an escape by name, and every
unit of UTF-16 has one by number. Main statements: scanning finds what is quoted up to the first
quote that is not escaped (`scan_eq_some_iff`), and what is written for characters stands for them
(`quoted_written`, `ofUnits?_map_toNat`).
-/
namespace Semihosting.Json.Text

/-- The units that characters between two quotes stand for. -/
inductive Quoted : List Nat → List Char → Prop
  | nil : Quoted [] []
  | plain {char units chars} : char ≠ '"' → char ≠ '\\' → isControl char = false →
      Quoted units chars → Quoted (char.toNat :: units) (char :: chars)
  | named {char unit units chars} : escaped? char = some unit → Quoted units chars →
      Quoted (unit :: units) ('\\' :: char :: chars)
  | numbered {a b c d unit units chars} : unit? a b c d = some unit → Quoted units chars →
      Quoted (unit :: units) ('\\' :: 'u' :: a :: b :: c :: d :: chars)

theorem prepend_eq_some_iff {unit : Nat} {scanned : Option (List Nat × List Char)}
    {units : List Nat} {rest : List Char} :
    prepend unit scanned = some (units, rest) ↔
      ∃ behind, scanned = some (behind, rest) ∧ units = unit :: behind := by
  rw [prepend, Option.map_eq_some_iff]
  constructor
  · rintro ⟨⟨behind, _⟩, found, same⟩
    cases same
    exact ⟨behind, found, rfl⟩
  · rintro ⟨behind, found, rfl⟩
    exact ⟨(behind, rest), found, rfl⟩

/-- A scan ends at the first quotation mark that is not escaped. -/
theorem quoted_of_scan {chars rest : List Char} {units : List Nat}
    (scanned : scan chars = some (units, rest)) :
    ∃ body, Quoted units body ∧ chars = body ++ '"' :: rest := by
  fun_induction scan chars generalizing units with
  | case1 =>
    cases scanned
    exact ⟨[], .nil, rfl⟩
  | case2 a b c d behind ih =>
    obtain ⟨unit, spelled, read⟩ := Option.bind_eq_some_iff.mp scanned
    obtain ⟨_, found, rfl⟩ := prepend_eq_some_iff.mp read
    obtain ⟨body, quoted, rfl⟩ := ih found
    exact ⟨_, .numbered spelled quoted, rfl⟩
  | case3 char behind _ ih =>
    obtain ⟨unit, spelled, read⟩ := Option.bind_eq_some_iff.mp scanned
    obtain ⟨_, found, rfl⟩ := prepend_eq_some_iff.mp read
    obtain ⟨body, quoted, rfl⟩ := ih found
    exact ⟨_, .named spelled quoted, rfl⟩
  | case4 => cases scanned
  | case5 char behind quote _ escape plain ih =>
    obtain ⟨_, found, rfl⟩ := prepend_eq_some_iff.mp scanned
    obtain ⟨body, quoted, rfl⟩ := ih found
    refine ⟨_, .plain quote ?_ (Bool.eq_false_iff.mpr plain) quoted, rfl⟩
    -- There is a character behind, so a backslash would have been read as an escape.
    intro backslash
    have behind : body ++ '"' :: rest ≠ [] := by simp
    obtain ⟨next, later, more⟩ := List.exists_cons_of_ne_nil behind
    exact escape next later backslash more
  | case6 => cases scanned

theorem Quoted.scan {units : List Nat} {body : List Char} (quoted : Quoted units body)
    (rest : List Char) : Text.scan (body ++ '"' :: rest) = some (units, rest) := by
  induction quoted with
  | nil => rfl
  | plain quote backslash plain _ ih =>
    rw [List.cons_append, Text.scan, if_neg (Bool.eq_false_iff.mp plain), ih]
    · rfl
    · exact quote
    · exact fun _ _ _ _ _ escape => absurd escape backslash
    · exact fun _ _ escape => absurd escape backslash
  | @named char unit _ chars named _ ih =>
    -- An escape by number is not one by name.
    have noNumber : ∀ a b c d later, char = 'u' →
        chars ++ '"' :: rest ≠ a :: b :: c :: d :: later := by
      rintro a b c d later rfl
      cases named
    rw [List.cons_append, List.cons_append, Text.scan, named, Option.bind_some, ih]
    · rfl
    · exact noNumber
  | numbered unit _ ih =>
    simp only [List.cons_append]
    rw [Text.scan, unit, Option.bind_some, ih]
    rfl

theorem scan_eq_some_iff {chars rest : List Char} {units : List Nat} :
    scan chars = some (units, rest) ↔ ∃ body, Quoted units body ∧ chars = body ++ '"' :: rest := by
  constructor
  · exact quoted_of_scan
  · rintro ⟨body, quoted, rfl⟩
    exact quoted.scan rest

/-! ### Written texts -/

theorem isSurrogate_eq_false (char : Char) :
    isHigh char.toNat = false ∧ isLow char.toNat = false := by
  have valid : char.toNat < 0xD800 ∨ 0xDFFF < char.toNat ∧ char.toNat < 0x110000 := char.valid
  simp only [isHigh, isLow, Bool.and_eq_false_iff, decide_eq_false_iff_not]
  omega

/-- No character is a surrogate, so each one stands for itself. -/
theorem ofUnits?_map_toNat (chars : List Char) : ofUnits? (chars.map Char.toNat) = some chars := by
  match chars with
  | [] => rfl
  | [char] => simp [ofUnits?, isSurrogate_eq_false, Char.ofNat_toNat]
  | char :: next :: chars =>
    have behind := ofUnits?_map_toNat (next :: chars)
    rw [List.map_cons] at behind
    simp [ofUnits?, isSurrogate_eq_false, behind, Char.ofNat_toNat]

/-- The number of a control character has two digits. -/
theorem unit?_control {code : Nat} (control : code < 0x20) :
    unit? '0' '0' (Nat.digitChar ((UInt8.ofNat code).toNat / 16))
      (Nat.digitChar ((UInt8.ofNat code).toNat % 16)) = some code := by
  revert code
  decide

/-- However a character is written, it is quoted as itself. -/
theorem quoted_writeChar {units : List Nat} {chars : List Char} (char : Char)
    (quoted : Quoted units chars) : Quoted (char.toNat :: units) (writeChar char ++ chars) := by
  unfold writeChar
  split
  case h_8 quote backslash _ _ _ _ _ =>
    split
    next control => exact .numbered (unit?_control (by simpa [isControl] using control)) quoted
    next plain =>
      refine .plain ?_ ?_ (Bool.eq_false_iff.mpr plain) quoted
      · rintro rfl
        exact quote rfl
      · rintro rfl
        exact backslash rfl
  -- In the other cases the escape has a name.
  all_goals
    next code =>
      rw [code]
      exact .named rfl quoted

theorem quoted_written (chars : List Char) :
    Quoted (chars.map Char.toNat) (chars.flatMap writeChar) := by
  induction chars with
  | nil => exact .nil
  | cons char chars ih =>
    rw [List.map_cons, List.flatMap_cons]
    exact quoted_writeChar char ih

end Semihosting.Json.Text
