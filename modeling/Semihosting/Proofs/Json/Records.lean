import Mathlib.Data.List.Forall2
import Semihosting.Json.Record

/-!
# What records say

A value gives named fields if it is an object with texts as keys in which each of the names stands
at most once, or an array that is no longer than the names. Main statements: reading a record finds
exactly the fields that the value gives (`record?_eq_some_iff`), and an object of the named fields
gives all of them (`gives_ofFields`).
-/
namespace Semihosting.Json

/-- The field of an object with the given name is the value, or there is no such field. -/
def Holds (fields : List (Option String × Json)) (name : String) (value : Option Json) : Prop :=
  fields.filter (fun field => field.1 = some name) = value.toList.map fun json => (some name, json)

/-- The values that a JSON value gives for the names, in their order. -/
inductive Gives (names : List String) : Json → List (Option Json) → Prop
  | array {items} : items.length ≤ names.length → Gives names (.array items)
      (items.map some ++ List.replicate (names.length - items.length) none)
  | object {fields values} : (∀ field ∈ fields, field.1 ≠ none) →
      List.Forall₂ (Holds fields) names values → Gives names (.object fields) values

theorem integerWithin?_eq_some_iff {least greatest value : Int} {json : Json} :
    json.integerWithin? least greatest = some value ↔
      json = .ofInt value ∧ least ≤ value ∧ value ≤ greatest := by
  constructor
  · intro read
    unfold integerWithin? at read
    split at read
    next integer =>
      split at read
      next between =>
        cases read
        exact ⟨rfl, between⟩
      · cases read
    · cases read
  · rintro ⟨rfl, between⟩
    exact if_pos between

/-- A variant is an object with a single key, which names it. -/
theorem variant?_eq_some_iff {json body : Json} {name : String} :
    json.variant? = some (name, body) ↔ json = .object [(some name, body)] := by
  constructor
  · intro read
    unfold variant? at read
    split at read
    next =>
      cases read
      rfl
    · cases read
  · rintro rfl
    rfl

/-- The fields of an object whose keys are these texts. -/
def textual (fields : List (String × Json)) : List (Option String × Json) :=
  fields.map fun (key, value) => (some key, value)

theorem keyed?_eq_some_iff {fields : List (Option String × Json)} {keyed : List (String × Json)} :
    keyed? fields = some keyed ↔ fields = textual keyed := by
  induction fields generalizing keyed with
  | nil => cases keyed <;> simp [keyed?, textual]
  | cons field rest ih =>
    obtain ⟨_ | key, value⟩ := field
    · cases keyed <;> simp [keyed?, textual]
    · cases keyed with
      | nil => simp [keyed?, textual]
      | cons first later =>
        obtain ⟨name, json⟩ := first
        simp only [keyed?, Option.map_eq_some_iff, ih, textual, List.map_cons, List.cons.injEq]
        constructor
        · rintro ⟨others, rfl, same, rfl⟩
          cases same
          exact ⟨rfl, rfl⟩
        · rintro ⟨same, rfl⟩
          cases same
          exact ⟨later, rfl, rfl, rfl⟩

theorem exists_textual_iff {fields : List (Option String × Json)} :
    (∃ keyed, fields = textual keyed) ↔ ∀ field ∈ fields, field.1 ≠ none := by
  constructor
  · rintro ⟨keyed, rfl⟩ field member
    obtain ⟨⟨key, value⟩, -, rfl⟩ := List.mem_map.mp member
    exact Option.some_ne_none key
  · intro texts
    induction fields with
    | nil => exact ⟨[], rfl⟩
    | cons field rest ih =>
      obtain ⟨keyed, rfl⟩ := ih fun other member => texts other (List.mem_cons_of_mem _ member)
      obtain ⟨_ | key, value⟩ := field
      · exact absurd rfl (texts _ List.mem_cons_self)
      · exact ⟨(key, value) :: keyed, rfl⟩

theorem holds_none_iff {keyed : List (String × Json)} {name : String} :
    Holds (textual keyed) name none ↔ occurrences name keyed = 0 := by
  simp only [Holds, textual, List.filter_map, Option.toList_none, List.map_nil,
    List.map_eq_nil_iff, List.filter_eq_nil_iff, occurrences, List.countP_eq_zero]
  simp

theorem holds_cons_self_iff {keyed : List (String × Json)} {name : String} {json : Json}
    {value : Option Json} :
    Holds (textual ((name, json) :: keyed)) name value ↔
      some json = value ∧ Holds (textual keyed) name none := by
  have first : (textual ((name, json) :: keyed)).filter (fun field => field.1 = some name) =
      (some name, json) :: (textual keyed).filter fun field => field.1 = some name := by
    simp [textual]
  rw [Holds, first]
  cases value with
  | none => simp
  | some other => simp [Holds]

theorem holds_cons_of_ne_iff {keyed : List (String × Json)} {key name : String} {json : Json}
    {value : Option Json} (ne : key ≠ name) :
    Holds (textual ((key, json) :: keyed)) name value ↔ Holds (textual keyed) name value := by
  simp [Holds, textual, ne]

/-- A name that stands at most once is looked up as what its field holds. -/
theorem holds_iff {keyed : List (String × Json)} {name : String} {value : Option Json} :
    Holds (textual keyed) name value ↔
      occurrences name keyed ≤ 1 ∧ keyed.lookup name = value := by
  induction keyed with
  | nil => cases value <;> simp [Holds, textual, occurrences]
  | cons field rest ih =>
    obtain ⟨key, json⟩ := field
    by_cases same : key = name
    · subst same
      -- The name may not stand again behind its first field.
      have counted : occurrences key ((key, json) :: rest) = occurrences key rest + 1 := by
        simp [occurrences]
      rw [holds_cons_self_iff, holds_none_iff, counted, List.lookup_cons_self, and_comm]
      simp
    · have passed : (name == key) = false := by simpa using fun back => same back.symm
      have counted : occurrences name ((key, json) :: rest) = occurrences name rest := by
        simp [occurrences, same]
      rw [holds_cons_of_ne_iff same, ih, counted, List.lookup_cons, passed]

/-- Names hold values one by one exactly if none is given twice and looking each up gives its value.
-/
theorem forall₂_holds_iff {keyed : List (String × Json)} {names : List String}
    {values : List (Option Json)} :
    List.Forall₂ (Holds (textual keyed)) names values ↔
      (∀ name ∈ names, occurrences name keyed ≤ 1) ∧
        names.map (fun name => keyed.lookup name) = values := by
  induction names generalizing values with
  | nil => cases values <;> simp
  | cons name rest ih =>
    cases values with
    | nil => simp
    | cons value later =>
      simp only [List.forall₂_cons, ih, holds_iff, List.mem_cons, forall_eq_or_imp, List.map_cons,
        List.cons.injEq]
      tauto

/-- A record is read exactly as what the value gives for the names. -/
theorem record?_eq_some_iff {names : List String} {json : Json} {values : List (Option Json)} :
    json.record? names = some values ↔ Gives names json values := by
  constructor
  · intro read
    cases json with
    | scalar _ => cases read
    | string _ => cases read
    | array items =>
      simp only [record?] at read
      split at read
      next short =>
        cases read
        exact .array short
      · cases read
    | object fields =>
      obtain ⟨keyed, texts, unrepeated⟩ := Option.bind_eq_some_iff.mp read
      have written := keyed?_eq_some_iff.mp texts
      split at unrepeated
      next once =>
        cases unrepeated
        subst written
        refine .object (exists_textual_iff.mp ⟨keyed, rfl⟩) (forall₂_holds_iff.mpr ⟨?_, rfl⟩)
        simpa using once
      · cases unrepeated
  · intro gives
    cases gives with
    | array short => simp [record?, short]
    | object texts held =>
      obtain ⟨keyed, rfl⟩ := exists_textual_iff.mpr texts
      -- Only the names that are looked up may not repeat; other keys may.
      obtain ⟨once, found⟩ := forall₂_holds_iff.mp held
      have unrepeated : names.all (fun name => occurrences name keyed ≤ 1) = true := by
        simpa using once
      simp only [record?, keyed?_eq_some_iff.mpr rfl, Option.bind_some, if_pos unrepeated, found]

/-! ### Written records -/

/-- In an object without repeated keys every field holds its value. -/
theorem holds_of_mem {fields : List (String × Json)} (nodup : (fields.map Prod.fst).Nodup) :
    ∀ field ∈ fields, Holds (textual fields) field.1 (some field.2) := by
  induction fields with
  | nil => simp
  | cons first rest ih =>
    obtain ⟨fresh, nodup⟩ := List.nodup_cons.mp nodup
    intro field member
    rcases List.mem_cons.mp member with rfl | later
    · rw [holds_cons_self_iff, holds_none_iff]
      refine ⟨rfl, List.countP_eq_zero.mpr ?_⟩
      intro other elsewhere
      have unlike : other.1 ≠ field.1 := fun same => fresh (same ▸ List.mem_map_of_mem elsewhere)
      simpa using unlike
    · have unlike : first.1 ≠ field.1 := fun same => fresh (same ▸ List.mem_map_of_mem later)
      rw [holds_cons_of_ne_iff unlike]
      exact ih nodup field later

/-- Fields that are written under different names are given for these names. -/
theorem gives_ofFields {fields : List (String × Json)} {names : List String}
    {values : List (Option Json)} (keys : fields.map Prod.fst = names)
    (own : fields.map (fun field => some field.2) = values) (nodup : names.Nodup) :
    (ofFields fields).Gives names values := by
  subst keys own
  refine .object (exists_textual_iff.mp ⟨fields, rfl⟩) ?_
  rw [List.forall₂_map_left_iff, List.forall₂_map_right_iff, List.forall₂_same]
  exact holds_of_mem nodup

end Semihosting.Json
