import Mathlib.Data.List.Chain
import Semihosting.Json.Token
import Semihosting.Proofs.Json.Numbers
import Semihosting.Proofs.Json.Quoting

/-!
# How tokens are laid out

The tokens of a text stand in a row, with blanks wherever there is no token. Nothing may be glued to
a number or a word; everything else may stand next to each other. Main statements: a text is cut
into exactly the tokens that are laid out in it (`ofChars?_eq_some_iff`), and tokens can be written
without blanks as long as no two atoms follow each other (`laidOut_written`).
-/
namespace Semihosting.Json

/-- The words and numbers, and how they are spelled. -/
inductive Scalar.Spelled : Scalar → List Char → Prop
  | null : Spelled .null ['n', 'u', 'l', 'l']
  | yes : Spelled (.bool true) ['t', 'r', 'u', 'e']
  | no : Spelled (.bool false) ['f', 'a', 'l', 's', 'e']
  | number {value chars} : Number.Spelled value chars → Spelled value chars

namespace Token

/-- The spellings of a token. -/
inductive Spelled : Token → List Char → Prop
  | mark {char token} : punctuation? char = some token → Spelled token [char]
  | text {units body} : Text.Quoted units body →
      Spelled (text ((Text.ofUnits? units).map String.ofList)) ('"' :: (body ++ ['"']))
  | atom {value chars} : value.Spelled chars → Spelled (atom value) chars

def isAtom : Token → Bool
  | atom _ => true
  | _ => false

/-- Tokens stand in a text one behind the other. What follows an atom does not continue it. -/
inductive LaidOut : List Token → List Char → Prop
  | nil : LaidOut [] []
  | blank {char tokens chars} : isBlank char = true → LaidOut tokens chars →
      LaidOut tokens (char :: chars)
  | token {token spelling tokens chars} : Spelled token spelling →
      (isAtom token = true → ∀ char ∈ chars.head?, isAtomic char = false) → LaidOut tokens chars →
      LaidOut (token :: tokens) (spelling ++ chars)

/-! ### Atoms -/

/-- A word stands for a value exactly if the value may be spelled so. -/
theorem atom?_eq_some_iff {chars : List Char} {value : Scalar} :
    atom? chars = some value ↔ value.Spelled chars := by
  constructor
  · intro read
    unfold atom? at read
    split at read
    next same =>
      cases read
      rw [same]
      exact .null
    · split at read
      next same =>
        cases read
        rw [same]
        exact .yes
      · split at read
        next same =>
          cases read
          rw [same]
          exact .no
        · exact .number (Number.ofChars?_eq_some_iff.mp read)
  · intro spelled
    cases spelled with
    | null => rfl
    | yes => rfl
    | no => rfl
    | number spelled =>
      have read := Number.ofChars?_eq_some_iff.mpr spelled
      -- No word is a number.
      have noWord {word : List Char} (refused : Number.ofChars? word = none) : chars ≠ word := by
        rintro rfl
        rw [refused] at read
        cases read
      rw [atom?, if_neg (noWord rfl), if_neg (noWord rfl), if_neg (noWord rfl), read]

theorem isAtomic_of_spelled {value : Scalar} {chars : List Char} (spelled : value.Spelled chars) :
    ∀ char ∈ chars, isAtomic char = true := by
  cases spelled with
  | null => simp [isAtomic]
  | yes => simp [isAtomic]
  | no => simp [isAtomic]
  | number spelled =>
    intro char member
    have numeric := spelled.isNumeric char member
    simp only [Number.isNumeric, Bool.or_eq_true, decide_eq_true_eq] at numeric
    rcases numeric with digit | mark
    · simp [isAtomic, Char.isAlphanum, digit]
    · simp only [List.mem_cons, List.not_mem_nil, or_false] at mark
      rcases mark with rfl | rfl | rfl | rfl | rfl <;> rfl

/-- A character that is a token on its own is nothing else, and that token is no atom. -/
theorem unlike_of_mark {char : Char} {token : Token} (mark : punctuation? char = some token) :
    isAtom token = false ∧ isBlank char = false ∧ char ≠ '"' ∧ isAtomic char = false := by
  unfold punctuation? at mark
  split at mark
  case h_7 => cases mark
  all_goals
    cases mark
    decide

theorem unlike_of_atomic {char : Char} (atomic : isAtomic char = true) :
    isBlank char = false ∧ char ≠ '"' := by
  constructor
  · apply Bool.eq_false_iff.mpr
    intro blank
    simp only [isBlank, Bool.or_eq_true, decide_eq_true_eq] at blank
    rcases blank with ((rfl | rfl) | rfl) | rfl <;> cases atomic
  · rintro rfl
    cases atomic

/-! ### Cutting a text into tokens -/

/-- Whatever is split into tokens was laid out as these. -/
theorem laidOut_of_ofChars? {chars : List Char} {tokens : List Token}
    (read : ofChars? chars = some tokens) : LaidOut tokens chars := by
  fun_induction ofChars? chars generalizing tokens with
  | case1 =>
    cases read
    exact .nil
  | case2 char rest blank ih => exact .blank blank (ih read)
  | case3 => cases read
  | case4 rest units behind scanned _ ih =>
    obtain ⟨later, found, rfl⟩ := Option.map_eq_some_iff.mp read
    obtain ⟨body, quoted, rfl⟩ := Text.scan_eq_some_iff.mp scanned
    have laid := LaidOut.token (.text quoted) Bool.noConfusion (ih found)
    simpa using laid
  -- An atom reaches as far as its characters go.
  | case5 char rest _ quote atomic ih =>
    obtain ⟨value, judged, read⟩ := Option.bind_eq_some_iff.mp read
    obtain ⟨later, found, rfl⟩ := Option.map_eq_some_iff.mp read
    have laid := LaidOut.token (.atom (atom?_eq_some_iff.mp judged)) (fun _ => behind_dropWhile)
      (ih found)
    simpa using laid
  | case6 char rest _ quote atomic ih =>
    obtain ⟨token, mark, read⟩ := Option.bind_eq_some_iff.mp read
    obtain ⟨later, found, rfl⟩ := Option.map_eq_some_iff.mp read
    exact LaidOut.token (.mark mark) (by simp [(unlike_of_mark mark).1]) (ih found)

theorem ofChars?_of_blank {char : Char} (rest : List Char) (blank : isBlank char = true) :
    ofChars? (char :: rest) = ofChars? rest := by
  rw [ofChars?, if_pos blank]

theorem ofChars?_of_quoted {units : List Nat} {body : List Char} (rest : List Char)
    (quoted : Text.Quoted units body) :
    ofChars? ('"' :: (body ++ '"' :: rest)) =
      (ofChars? rest).map (text ((Text.ofUnits? units).map String.ofList) :: ·) := by
  rw [ofChars?, if_neg (by decide), if_pos rfl]
  split
  next none => rw [quoted.scan] at none; cases none
  next found =>
    rw [quoted.scan] at found
    cases found
    rfl

/-- An atom ends where no character can continue it. -/
theorem ofChars?_of_atom {value : Scalar} {chars rest : List Char} (spelled : value.Spelled chars)
    (ends : ∀ char ∈ rest.head?, isAtomic char = false) :
    ofChars? (chars ++ rest) = (ofChars? rest).map (atom value :: ·) := by
  have inside := isAtomic_of_spelled spelled
  obtain ⟨taken, left⟩ := span_run inside ends
  have judged := atom?_eq_some_iff.mpr spelled
  cases chars with
  | nil => cases judged
  | cons first run =>
    have atomic := inside first List.mem_cons_self
    obtain ⟨blank, quote⟩ := unlike_of_atomic atomic
    rw [List.cons_append, List.takeWhile_cons_of_pos atomic] at taken
    rw [List.cons_append, List.dropWhile_cons_of_pos atomic] at left
    rw [List.cons_append, ofChars?, if_neg (Bool.eq_false_iff.mp blank), if_neg quote,
      if_pos atomic, taken, left, judged, Option.bind_some]

theorem ofChars?_of_mark {char : Char} {token : Token} (rest : List Char)
    (mark : punctuation? char = some token) :
    ofChars? (char :: rest) = (ofChars? rest).map (token :: ·) := by
  obtain ⟨-, blank, quote, atomic⟩ := unlike_of_mark mark
  rw [ofChars?, if_neg (by simp [blank]), if_neg quote, if_neg (by simp [atomic]), mark,
    Option.bind_some]

theorem LaidOut.ofChars? {tokens : List Token} {chars : List Char} (laid : LaidOut tokens chars) :
    ofChars? chars = some tokens := by
  induction laid with
  | nil => rw [Token.ofChars?]
  | blank blank _ ih => rw [ofChars?_of_blank _ blank, ih]
  | @token _ _ _ chars spelled apart _ ih =>
    cases spelled with
    | mark mark =>
      rw [List.singleton_append, ofChars?_of_mark chars mark, ih]
      rfl
    | text quoted =>
      have read := ofChars?_of_quoted chars quoted
      rw [ih] at read
      simpa using read
    | atom spelled =>
      rw [ofChars?_of_atom spelled (apart rfl), ih]
      rfl

theorem ofChars?_eq_some_iff {chars : List Char} {tokens : List Token} :
    ofChars? chars = some tokens ↔ LaidOut tokens chars :=
  ⟨laidOut_of_ofChars?, LaidOut.ofChars?⟩

/-! ### Written tokens -/

/-- The token is written as one of its spellings. A number that keeps its literal may not be. -/
def Writable (token : Token) : Prop :=
  ∀ literal, token = atom (.real literal) → Number.Spelled (.real literal) literal

theorem spelled_quote (content : Option String) : Spelled (text content) (Text.quote content) := by
  cases content with
  | none =>
    have half : Text.Quoted [0xD800] ['\\', 'u', 'd', '8', '0', '0'] := .numbered rfl .nil
    exact .text half
  | some content =>
    have spelled := Spelled.text (Text.quoted_written content.toList)
    rw [Text.ofUnits?_map_toNat, Option.map_some, String.ofList_toList] at spelled
    exact spelled

theorem Writable.spelled {token : Token} (writable : token.Writable) :
    Spelled token token.write := by
  cases token with
  | openArray | closeArray | openObject | closeObject | comma | colon => exact .mark rfl
  | text content => exact spelled_quote content
  | atom value =>
    cases value with
    | null => exact .atom .null
    | bool value =>
      cases value with
      | true => exact .atom .yes
      | false => exact .atom .no
    | integer value => exact .atom (.number (.integer value))
    | real literal => exact .atom (.number (writable literal rfl))

/-- What stands at the front of a token that is no atom does not continue one. -/
theorem head_of_spelled {token : Token} {spelling : List Char} (spelled : Spelled token spelling)
    (noAtom : isAtom token = false) (rest : List Char) :
    ∀ char ∈ (spelling ++ rest).head?, isAtomic char = false := by
  cases spelled with
  | mark mark => simpa using (unlike_of_mark mark).2.2.2
  | text quoted => simp [isAtomic]
  | atom spelled => cases noAtom

/-- Tokens need no blanks between them unless an atom follows an atom. -/
theorem laidOut_written {tokens : List Token} (writable : ∀ token ∈ tokens, token.Writable)
    (apart : tokens.IsChain fun token next => isAtom token = true → isAtom next = false) :
    LaidOut tokens (tokens.flatMap write) := by
  induction tokens with
  | nil => exact .nil
  | cons token later ih =>
    obtain ⟨own, others⟩ := List.forall_mem_cons.mp writable
    have behind := ih others apart.tail
    refine .token own.spelled ?_ behind
    intro atomic
    cases later with
    | nil => simp
    | cons next later =>
      have noAtom := (List.isChain_cons_cons.mp apart).1 atomic
      exact head_of_spelled (others next List.mem_cons_self).spelled noAtom _

end Token

end Semihosting.Json
