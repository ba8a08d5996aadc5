import Semihosting.Json.Printer
import Semihosting.Json.Reader
import Semihosting.Proofs.Json.Layout

/-!
# Reading what is written

Main statements: tokens are read as a value exactly if they are the tokens of that value
(`ofTokens?_eq_some_iff`), so a text stands for a value exactly if the tokens of the value are laid
out in it (`read?_eq_some_iff`), and what a value is written as is read as the value
(`read?_compact`).
-/
namespace Semihosting.Json

namespace Reader

/-! ### Values are read -/

mutual

/-- The tokens of a value bring a reader that waits for a value behind it. -/
theorem run_tokens (json : Json) (first : Bool) (stack : List Pending) (rest : List Token) :
    run (.awaitValue first stack) (json.tokens ++ rest) = run (.behind json stack) rest := by
  -- The recursion is on the value, together with that over its items and its fields.
  match json with
  | .scalar value => rfl
  | .string text => rfl
  | .array [] => rfl
  | .array (item :: items) =>
    rw [tokens, List.cons_append, List.append_assoc]
    calc run (.awaitValue first stack) (.openArray :: (item.tokens ++ (itemTokens items ++ rest)))
        = run (.awaitValue true (.item [] :: stack))
          (item.tokens ++ (itemTokens items ++ rest)) := rfl
      _ = run (.behind item (.item [] :: stack)) (itemTokens items ++ rest) := run_tokens item ..
      _ = run (.behind (.array (item :: items)) stack) rest := run_itemTokens items ..
  | .object [] => rfl
  | .object ((key, value) :: fields) =>
    rw [tokens, List.cons_append, List.cons_append, List.cons_append, List.append_assoc]
    calc run (.awaitValue first stack)
          (.openObject :: .text key :: .colon :: (value.tokens ++ (fieldTokens fields ++ rest)))
        = run (.awaitValue false (.field [] key :: stack))
          (value.tokens ++ (fieldTokens fields ++ rest)) := rfl
      _ = run (.behind value (.field [] key :: stack)) (fieldTokens fields ++ rest) :=
        run_tokens value ..
      _ = run (.behind (.object ((key, value) :: fields)) stack) rest := run_fieldTokens fields ..

theorem run_itemTokens (items before : List Json) (complete : Json) (stack : List Pending)
    (rest : List Token) :
    run (.behind complete (.item before :: stack)) (itemTokens items ++ rest) =
      run (.behind (.array (before ++ complete :: items)) stack) rest := by
  match items with
  | [] => rfl
  | item :: items =>
    rw [itemTokens, List.cons_append, List.append_assoc]
    calc run (.behind complete (.item before :: stack))
          (.comma :: (item.tokens ++ (itemTokens items ++ rest)))
        = run (.awaitValue false (.item (before ++ [complete]) :: stack))
          (item.tokens ++ (itemTokens items ++ rest)) := rfl
      _ = run (.behind item (.item (before ++ [complete]) :: stack)) (itemTokens items ++ rest) :=
        run_tokens item ..
      _ = run (.behind (.array (before ++ [complete] ++ item :: items)) stack) rest :=
        run_itemTokens items ..
      _ = run (.behind (.array (before ++ complete :: item :: items)) stack) rest := by simp

theorem run_fieldTokens (fields before : List (Option String × Json)) (key : Option String)
    (complete : Json) (stack : List Pending) (rest : List Token) :
    run (.behind complete (.field before key :: stack)) (fieldTokens fields ++ rest) =
      run (.behind (.object (before ++ (key, complete) :: fields)) stack) rest := by
  match fields with
  | [] => rfl
  | (next, value) :: fields =>
    rw [fieldTokens, List.cons_append, List.cons_append, List.cons_append, List.append_assoc]
    calc run (.behind complete (.field before key :: stack))
          (.comma :: .text next :: .colon :: (value.tokens ++ (fieldTokens fields ++ rest)))
        = run (.awaitValue false (.field (before ++ [(key, complete)]) next :: stack))
          (value.tokens ++ (fieldTokens fields ++ rest)) := rfl
      _ = run (.behind value (.field (before ++ [(key, complete)]) next :: stack))
          (fieldTokens fields ++ rest) := run_tokens value ..
      _ = run (.behind (.object (before ++ [(key, complete)] ++ (next, value) :: fields)) stack)
          rest := run_fieldTokens fields ..
      _ = run (.behind (.object (before ++ (key, complete) :: (next, value) :: fields)) stack)
          rest := by simp

end

/-! ### Nothing else is read -/

/-- The tokens of items that others follow. -/
def itemsBefore (before : List Json) : List Token :=
  before.flatMap fun item => item.tokens ++ [.comma]

/-- The tokens of fields that others follow. -/
def fieldsBefore (before : List (Option String × Json)) : List Token :=
  before.flatMap fun (key, value) => .text key :: .colon :: (value.tokens ++ [.comma])

/-- The tokens that were read while the values on the stack began to wait. -/
def waiting : List Pending → List Token
  | [] => []
  | .item before :: outer => waiting outer ++ .openArray :: itemsBefore before
  | .field before key :: outer =>
    waiting outer ++ .openObject :: (fieldsBefore before ++ [.text key, .colon])

/-- The tokens that lead to a state. -/
def consumed : Reader → List Token
  | .awaitValue _ stack => waiting stack
  | .awaitKey _ before stack => waiting stack ++ .openObject :: fieldsBefore before
  | .awaitColon before key stack =>
    waiting stack ++ .openObject :: (fieldsBefore before ++ [.text key])
  | .behind complete stack => waiting stack ++ complete.tokens

/-- Nothing was read yet behind an opening bracket or brace. -/
def Opening : Reader → Prop
  | .awaitValue true stack => ∃ outer, stack = .item [] :: outer
  | .awaitKey true before _ => before = []
  | _ => True

theorem tokens_item_append (items : List Json) (first last : Json) :
    first.tokens ++ itemTokens (items ++ [last]) =
      itemsBefore (first :: items) ++ (last.tokens ++ [.closeArray]) := by
  induction items generalizing first with
  | nil => simp [itemTokens, itemsBefore]
  | cons item items ih => simp [itemTokens, ih, itemsBefore]

theorem tokens_field_append (fields : List (Option String × Json)) (name key : Option String)
    (value last : Json) :
    .text name :: .colon :: (value.tokens ++ fieldTokens (fields ++ [(key, last)])) =
      fieldsBefore ((name, value) :: fields) ++ .text key :: .colon ::
        (last.tokens ++ [.closeObject]) := by
  induction fields generalizing name value with
  | nil => simp [fieldTokens, fieldsBefore]
  | cons field fields ih =>
    obtain ⟨next, json⟩ := field
    simp [fieldTokens, ih, fieldsBefore]

theorem tokens_array_append (before : List Json) (last : Json) :
    (Json.array (before ++ [last])).tokens =
      .openArray :: (itemsBefore before ++ (last.tokens ++ [.closeArray])) := by
  cases before with
  | nil => rfl
  | cons first before => rw [List.cons_append, tokens, tokens_item_append]

theorem tokens_object_append (before : List (Option String × Json)) (key : Option String)
    (last : Json) :
    (Json.object (before ++ [(key, last)])).tokens =
      .openObject :: (fieldsBefore before ++ .text key :: .colon ::
        (last.tokens ++ [.closeObject])) := by
  cases before with
  | nil => rfl
  | cons first before =>
    obtain ⟨name, value⟩ := first
    rw [List.cons_append, tokens, tokens_field_append]

theorem consumed_onValue {first : Bool} {stack : List Pending} {after : Reader} {token : Token}
    (opening : Opening (.awaitValue first stack)) (read : onValue first stack token = some after) :
    after.Opening ∧ after.consumed = waiting stack ++ [token] := by
  unfold onValue at read
  split at read
  next value =>
    cases read
    exact ⟨trivial, rfl⟩
  next text =>
    cases read
    exact ⟨trivial, rfl⟩
  next =>
    cases read
    exact ⟨⟨stack, rfl⟩, rfl⟩
  next =>
    cases read
    exact ⟨rfl, rfl⟩
  next =>
    -- An array may end at once, but not behind a comma.
    split at read
    next before outer =>
      cases read
      obtain ⟨_, same⟩ := opening
      cases same
      exact ⟨trivial, by simp [consumed, waiting, itemsBefore, tokens]⟩
    · cases read
  · cases read

theorem consumed_onKey {first : Bool} {before : List (Option String × Json)} {stack : List Pending}
    {after : Reader} {token : Token} (opening : Opening (.awaitKey first before stack))
    (read : onKey first before stack token = some after) :
    after.Opening ∧
      after.consumed = waiting stack ++ .openObject :: fieldsBefore before ++ [token] := by
  unfold onKey at read
  split at read
  next key =>
    cases read
    exact ⟨trivial, by simp [consumed]⟩
  next =>
    split at read
    next empty =>
      cases read
      subst empty
      cases opening
      exact ⟨trivial, by simp [consumed, fieldsBefore, tokens]⟩
    · cases read
  · cases read

theorem consumed_onBehind {complete : Json} {stack : List Pending} {after : Reader} {token : Token}
    (read : onBehind complete stack token = some after) :
    after.Opening ∧ after.consumed = waiting stack ++ complete.tokens ++ [token] := by
  unfold onBehind at read
  split at read
  next before outer =>
    cases read
    exact ⟨trivial, by simp [consumed, waiting, itemsBefore]⟩
  next before outer =>
    cases read
    exact ⟨trivial, by simp [consumed, waiting, tokens_array_append]⟩
  next before key outer =>
    cases read
    exact ⟨trivial, by simp [consumed, waiting, fieldsBefore]⟩
  next before key outer =>
    cases read
    exact ⟨trivial, by simp [consumed, waiting, tokens_object_append]⟩
  · cases read

/-- A reader has consumed the tokens that it was given: each step adds its own. -/
theorem consumed_step {reader after : Reader} {token : Token} (opening : reader.Opening)
    (read : reader.step token = some after) :
    after.Opening ∧ after.consumed = reader.consumed ++ [token] := by
  cases reader with
  | awaitValue first stack => exact consumed_onValue opening read
  | awaitKey first before stack => exact consumed_onKey opening read
  | awaitColon before key stack =>
    cases token with
    | colon =>
      cases read
      exact ⟨trivial, by simp [consumed, waiting]⟩
    | _ => cases read
  | behind complete stack => exact consumed_onBehind read

/-- A reader forgets no token, so a value that it completes has all those that it was given. -/
theorem consumed_run {reader after : Reader} {tokens : List Token} (opening : reader.Opening)
    (read : reader.run tokens = some after) : after.consumed = reader.consumed ++ tokens := by
  induction tokens generalizing reader with
  | nil =>
    cases read
    rw [List.append_nil]
  | cons token tokens ih =>
    obtain ⟨middle, stepped, read⟩ := Option.bind_eq_some_iff.mp read
    obtain ⟨opening, consumed⟩ := consumed_step opening stepped
    rw [ih opening read, consumed, List.append_assoc, List.singleton_append]

/-! ### Atoms do not follow each other -/

theorem onBehind_atom (complete : Json) (stack : List Pending) (value : Scalar) :
    onBehind complete stack (.atom value) = none := by
  cases stack with
  | nil => rfl
  | cons pending outer => cases pending <;> rfl

/-- Two atoms never follow each other, so their words cannot run together. -/
theorem apart_of_step {reader middle after : Reader} {token next : Token}
    (read : reader.step token = some middle) (also : middle.step next = some after) :
    token.isAtom = true → next.isAtom = false := by
  intro atomic
  cases token with
  | atom value =>
    -- An atom completes a value, and behind a value there is no other.
    have complete : ∃ stack, middle = .behind (.scalar value) stack := by
      cases reader with
      | awaitValue first stack =>
        cases read
        exact ⟨stack, rfl⟩
      | awaitKey | awaitColon => cases read
      | behind complete stack =>
        rw [step, onBehind_atom] at read
        cases read
    obtain ⟨stack, rfl⟩ := complete
    cases next with
    | atom other =>
      rw [step, onBehind_atom] at also
      cases also
    | _ => rfl
  | _ => cases atomic

theorem apart_of_run {reader after : Reader} {tokens : List Token}
    (read : reader.run tokens = some after) :
    tokens.IsChain fun token next => token.isAtom = true → next.isAtom = false := by
  induction tokens generalizing reader with
  | nil => exact .nil
  | cons token tokens ih =>
    obtain ⟨middle, stepped, read⟩ := Option.bind_eq_some_iff.mp read
    cases tokens with
    | nil => exact .singleton token
    | cons next tokens =>
      obtain ⟨_, also, _⟩ := Option.bind_eq_some_iff.mp read
      exact .cons_cons (apart_of_step stepped also) (ih read)

end Reader

/-! ### Texts and values -/

theorem ofTokens?_tokens (json : Json) : ofTokens? json.tokens = some json := by
  have read := Reader.run_tokens json false [] []
  rw [List.append_nil] at read
  rw [ofTokens?, read]
  rfl

/-- Tokens are those of the value they are read as. -/
theorem ofTokens?_eq_some_iff {tokens : List Token} {json : Json} :
    ofTokens? tokens = some json ↔ tokens = json.tokens := by
  constructor
  · intro read
    obtain ⟨after, ran, result⟩ := Option.bind_eq_some_iff.mp read
    have consumed : after.consumed = Reader.consumed (.awaitValue false []) ++ tokens :=
      Reader.consumed_run trivial ran
    unfold Reader.result? at result
    split at result
    next complete =>
      cases result
      exact consumed.symm
    · cases result
  · rintro rfl
    exact ofTokens?_tokens json

/-- A text stands for a value exactly if the tokens of the value are laid out in it. -/
theorem read?_eq_some_iff {text : String} {json : Json} :
    read? text = some json ↔ Token.LaidOut json.tokens text.toList := by
  simp only [read?, Option.bind_eq_some_iff, Token.ofChars?_eq_some_iff, ofTokens?_eq_some_iff]
  constructor
  · rintro ⟨_, laid, rfl⟩
    exact laid
  · intro laid
    exact ⟨_, laid, rfl⟩

theorem tokens_apart (json : Json) :
    json.tokens.IsChain fun token next => token.isAtom = true → next.isAtom = false := by
  obtain ⟨after, read, _⟩ := Option.bind_eq_some_iff.mp (ofTokens?_tokens json)
  exact Reader.apart_of_run read

/-! ### Written values -/

/-- The value is written with spellings of its tokens. -/
def Writable (json : Json) : Prop := ∀ token ∈ json.tokens, token.Writable

/-- What a value is written as is read as the value. -/
theorem read?_compact {json : Json} (writable : json.Writable) :
    read? json.compact = some json := by
  rw [read?_eq_some_iff, compact, String.toList_ofList]
  exact Token.laidOut_written writable json.tokens_apart

theorem writable_ofInt (value : Int) : (ofInt value).Writable := by
  simp [Writable, ofInt, tokens, Token.Writable]

theorem writable_ofNat (value : Nat) : (ofNat value).Writable := writable_ofInt value

theorem writable_ofText (text : String) : (ofText text).Writable := by
  simp [Writable, ofText, tokens, Token.Writable]

theorem writable_itemTokens {items : List Json} (values : ∀ item ∈ items, item.Writable) :
    ∀ token ∈ itemTokens items, token.Writable := by
  induction items with
  | nil => simp [itemTokens, Token.Writable]
  | cons item items ih =>
    obtain ⟨first, others⟩ := List.forall_mem_cons.mp values
    simp only [itemTokens, List.forall_mem_cons, List.forall_mem_append]
    exact ⟨by simp [Token.Writable], first, ih others⟩

theorem writable_array {items : List Json} (values : ∀ item ∈ items, item.Writable) :
    (array items).Writable := by
  cases items with
  | nil => simp [Writable, tokens, Token.Writable]
  | cons item items =>
    -- Behind the first item, an array goes on as one behind a comma does.
    obtain ⟨-, behind⟩ := List.forall_mem_cons.mp (writable_itemTokens values)
    rw [Writable, tokens]
    exact List.forall_mem_cons.mpr ⟨by simp [Token.Writable], behind⟩

theorem writable_fieldTokens {fields : List (Option String × Json)}
    (values : ∀ field ∈ fields, field.2.Writable) :
    ∀ token ∈ fieldTokens fields, token.Writable := by
  induction fields with
  | nil => simp [fieldTokens, Token.Writable]
  | cons field fields ih =>
    obtain ⟨key, value⟩ := field
    obtain ⟨first, others⟩ := List.forall_mem_cons.mp values
    simp only [fieldTokens, List.forall_mem_cons, List.forall_mem_append]
    exact ⟨by simp [Token.Writable], by simp [Token.Writable], by simp [Token.Writable], first,
      ih others⟩

theorem writable_object {fields : List (Option String × Json)}
    (values : ∀ field ∈ fields, field.2.Writable) : (object fields).Writable := by
  cases fields with
  | nil => simp [Writable, tokens, Token.Writable]
  | cons field fields =>
    obtain ⟨key, value⟩ := field
    obtain ⟨-, behind⟩ := List.forall_mem_cons.mp (writable_fieldTokens values)
    rw [Writable, tokens]
    exact List.forall_mem_cons.mpr ⟨by simp [Token.Writable], behind⟩

theorem writable_ofFields {fields : List (String × Json)}
    (values : ∀ field ∈ fields, field.2.Writable) : (ofFields fields).Writable := by
  apply writable_object
  intro field member
  obtain ⟨own, written, rfl⟩ := List.mem_map.mp member
  exact values own written

end Semihosting.Json
