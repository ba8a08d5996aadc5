import Semihosting.Proofs.Json.Reading

/-!
# Reading indented texts

A value that is printed over several lines has its tokens laid out in them, with blanks only where
blanks may stand. Main statement: an indented value is read as the value (`read?_pretty`).
-/
namespace Semihosting.Json

open Token (LaidOut isAtomic isBlank)

section

variable {rest : List Token} {behind : List Char}

theorem laidOut_mark (char : Char) {token : Token} (mark : Token.punctuation? char = some token)
    (laid : LaidOut rest behind) : LaidOut (token :: rest) (char :: behind) :=
  .token (.mark mark) (by simp [(Token.unlike_of_mark mark).1]) laid

theorem laidOut_newline (depth : Nat) (laid : LaidOut rest behind) :
    LaidOut rest (newline depth ++ behind) := by
  refine .blank rfl ?_
  induction 2 * depth with
  | zero => exact laid
  | succ count ih => exact .blank rfl ih

theorem laidOut_key (key : Option String) (laid : LaidOut rest behind) :
    LaidOut (.text key :: .colon :: rest) (Text.quote key ++ ':' :: ' ' :: behind) :=
  .token (Token.spelled_quote key) Bool.noConfusion (laidOut_mark ':' rfl (.blank rfl laid))

/-- Behind an item comes a comma or a new line, and neither continues an atom. -/
theorem head_itemLines (depth : Nat) (items : List Json) :
    ∀ char ∈ (itemLines depth items ++ behind).head?, isAtomic char = false := by
  cases items <;> simp [itemLines, newline, isAtomic]

theorem head_fieldLines (depth : Nat) (fields : List (Option String × Json)) :
    ∀ char ∈ (fieldLines depth fields ++ behind).head?, isAtomic char = false := by
  cases fields <;> simp [fieldLines, newline, isAtomic]

end

mutual

/-- The tokens of a value are laid out in its lines, in front of anything that does not continue an
atom. -/
theorem laidOut_lines (json : Json) (depth : Nat) (writable : json.Writable) {rest : List Token}
    {behind : List Char} (apart : ∀ char ∈ behind.head?, isAtomic char = false)
    (laid : LaidOut rest behind) : LaidOut (json.tokens ++ rest) (json.lines depth ++ behind) := by
  -- The recursion is on the value, together with that over its items and its fields.
  match json with
  | .scalar value =>
    have own : (Token.atom value).Writable := writable _ (by simp [tokens])
    exact .token own.spelled (fun _ => apart) laid
  | .string text => exact .token (Token.spelled_quote text) Bool.noConfusion laid
  | .array [] => exact laidOut_mark '[' rfl (laidOut_mark ']' rfl laid)
  | .array (item :: items) =>
    rw [Writable, tokens, List.forall_mem_cons, List.forall_mem_append] at writable
    obtain ⟨-, first, others⟩ := writable
    have line := laidOut_lines item (depth + 1) first (head_itemLines depth items)
      (laidOut_itemLines items depth others laid)
    have array := laidOut_mark '[' rfl (laidOut_newline (depth + 1) line)
    simpa [tokens, lines] using array
  | .object [] => exact laidOut_mark '\x7b' rfl (laidOut_mark '\x7d' rfl laid)
  | .object ((key, value) :: fields) =>
    rw [Writable, tokens, List.forall_mem_cons, List.forall_mem_cons, List.forall_mem_cons,
      List.forall_mem_append] at writable
    obtain ⟨-, -, -, first, others⟩ := writable
    have line := laidOut_lines value (depth + 1) first (head_fieldLines depth fields)
      (laidOut_fieldLines fields depth others laid)
    have object := laidOut_mark '\x7b' rfl
      (laidOut_newline (depth + 1) (laidOut_key key line))
    simpa [tokens, lines] using object

theorem laidOut_itemLines (items : List Json) (depth : Nat)
    (writable : ∀ token ∈ itemTokens items, token.Writable) {rest : List Token}
    {behind : List Char} (laid : LaidOut rest behind) :
    LaidOut (itemTokens items ++ rest) (itemLines depth items ++ behind) := by
  match items with
  | [] =>
    have closed := laidOut_newline depth (laidOut_mark ']' rfl laid)
    simpa [itemTokens, itemLines] using closed
  | item :: items =>
    rw [itemTokens, List.forall_mem_cons, List.forall_mem_append] at writable
    obtain ⟨-, first, others⟩ := writable
    have line := laidOut_lines item (depth + 1) first (head_itemLines depth items)
      (laidOut_itemLines items depth others laid)
    have next := laidOut_mark ',' rfl (laidOut_newline (depth + 1) line)
    simpa [itemTokens, itemLines] using next

theorem laidOut_fieldLines (fields : List (Option String × Json)) (depth : Nat)
    (writable : ∀ token ∈ fieldTokens fields, token.Writable) {rest : List Token}
    {behind : List Char} (laid : LaidOut rest behind) :
    LaidOut (fieldTokens fields ++ rest) (fieldLines depth fields ++ behind) := by
  match fields with
  | [] =>
    have closed := laidOut_newline depth (laidOut_mark '\x7d' rfl laid)
    simpa [fieldTokens, fieldLines] using closed
  | (key, value) :: fields =>
    rw [fieldTokens, List.forall_mem_cons, List.forall_mem_cons, List.forall_mem_cons,
      List.forall_mem_append] at writable
    obtain ⟨-, -, -, first, others⟩ := writable
    have line := laidOut_lines value (depth + 1) first (head_fieldLines depth fields)
      (laidOut_fieldLines fields depth others laid)
    have next := laidOut_mark ',' rfl
      (laidOut_newline (depth + 1) (laidOut_key key line))
    simpa [fieldTokens, fieldLines] using next

end

/-- An indented value is read as the value, whatever blanks stand behind it. -/
theorem read?_pretty {json : Json} (writable : json.Writable) {ending : String}
    (blank : ∀ char ∈ ending.toList, isBlank char = true) :
    read? (json.pretty ++ ending) = some json := by
  have nothing (chars : List Char) (blank : ∀ char ∈ chars, isBlank char = true) :
      LaidOut [] chars := by
    induction chars with
    | nil => exact .nil
    | cons char rest ih =>
      obtain ⟨own, others⟩ := List.forall_mem_cons.mp blank
      exact .blank own (ih others)
  -- A blank separates, so the ending continues no atom.
  have apart : ∀ char ∈ ending.toList.head?, isAtomic char = false := by
    intro char first
    apply Bool.eq_false_iff.mpr
    intro atomic
    have separates := blank char (List.mem_of_mem_head? first)
    rw [(Token.unlike_of_atomic atomic).1] at separates
    cases separates
  rw [read?_eq_some_iff, String.toList_append, pretty, String.toList_ofList,
    ← List.append_nil json.tokens]
  exact laidOut_lines json 0 writable apart (nothing _ blank)

end Semihosting.Json
