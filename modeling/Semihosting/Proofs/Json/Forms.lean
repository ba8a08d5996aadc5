import Semihosting.Proofs.Configuration.Sources
import Semihosting.Proofs.Json.Reading

/-!
# What is kept as JSON

Byte orders, configurations, limits and responses are restored from the texts in which their forms
are laid out. Main result: each of them is restored from what it is written as, and writing what a
text was read as leads to a text that stays as it is (`json_forms_are_kept`).
-/
namespace Semihosting

/-! ### Keeping values -/

namespace Json

section

variable {α : Type} {toJson : α → Json} {ofJson? : Json → Option α} {Form : α → Json → Prop}

/-- The value that is kept in a text. -/
def restore? (ofJson? : Json → Option α) (text : String) : Option α :=
  (Json.read? text).bind ofJson?

/-- The text that a text is replaced with when the value in it is written again. -/
def rewrite? (toJson : α → Json) (ofJson? : Json → Option α) (text : String) :
    Option String :=
  (restore? ofJson? text).map fun value => (toJson value).compact

/-- Values are restored from the texts that lay out their forms, one of which is written for each
of them. A rewritten text has the same value and is not rewritten any more. -/
structure Keeps (toJson : α → Json) (ofJson? : Json → Option α) (Form : α → Json → Prop) :
    Prop where
  accepted : ∀ text value, restore? ofJson? text = some value ↔
    ∃ json, Token.LaidOut json.tokens text.toList ∧ Form value json
  restored : ∀ value, restore? ofJson? (toJson value).compact = some value
  settled : ∀ text again, rewrite? toJson ofJson? text = some again →
    restore? ofJson? again = restore? ofJson? text ∧ rewrite? toJson ofJson? again = some again

theorem keeps_of_form (read : ∀ json value, ofJson? json = some value ↔ Form value json)
    (written : ∀ value, Form value (toJson value))
    (writable : ∀ value, (toJson value).Writable) :
    Keeps toJson ofJson? Form := by
  have restored (value : α) : restore? ofJson? (toJson value).compact = some value := by
    rw [restore?, read?_compact (writable value), Option.bind_some, read]
    exact written value
  refine ⟨?_, restored, ?_⟩
  · intro text value
    simp only [restore?, Option.bind_eq_some_iff, read?_eq_some_iff, read]
  · intro text again rewritten
    obtain ⟨value, accepted, rfl⟩ := Option.map_eq_some_iff.mp rewritten
    rw [rewrite?, restored, accepted]
    exact ⟨rfl, rfl⟩

end

end Json

/-! ### Limits -/

namespace Limits

/-- What a field says about a bound: its own value, or nothing if the standard one is meant. -/
inductive Sets (standard : Nat) : Nat → Option Json → Prop
  | kept : Sets standard standard none
  | given {value} : Sets standard value (some (.ofNat value))

/-- A record whose fields are left out or integers sets the limits. -/
def Recorded (limits : Limits) (json : Json) : Prop :=
  ∃ maxChunks maxCalls maxParameters,
    json.Gives fieldNames [maxChunks, maxCalls, maxParameters] ∧
      Sets standard.maxChunks.toNat limits.maxChunks.toNat maxChunks ∧
      Sets standard.maxCalls.toNat limits.maxCalls.toNat maxCalls ∧
      Sets standard.maxParameters.toNat limits.maxParameters.toNat maxParameters

/-- A field that is absent has its standard value, and one that is there has to be in range. -/
theorem readField_eq_some_iff {bound standard value : Nat} {field : Option Json}
    (small : standard < bound) :
    readField bound standard field = some value ↔ Sets standard value field ∧ value < bound := by
  cases field with
  | none =>
    constructor
    · intro read
      cases read
      exact ⟨.kept, small⟩
    · rintro ⟨⟨⟩, -⟩
      rfl
  | some json =>
    rw [readField, Json.naturalBelow?_eq_some_iff]
    constructor
    · rintro ⟨rfl, below⟩
      exact ⟨.given, below⟩
    · rintro ⟨⟨⟩, below⟩
      exact ⟨rfl, below⟩

theorem ofJson?_eq_some_iff {json : Json} {limits : Limits} :
    ofJson? json = some limits ↔ limits.Recorded json := by
  have chunks := standard.maxChunks.toNat_lt_size
  have calls := standard.maxCalls.toNat_lt_size
  have parameters := standard.maxParameters.toNat_lt_size
  constructor
  · intro read
    unfold ofJson? at read
    split at read
    next fields =>
      simp only [Option.bind_eq_bind, Option.bind_eq_some_iff, readField_eq_some_iff chunks,
        readField_eq_some_iff calls, readField_eq_some_iff parameters] at read
      obtain ⟨_, ⟨first, below⟩, _, ⟨second, below'⟩, _, ⟨third, below''⟩, made⟩ := read
      cases made
      refine ⟨_, _, _, Json.record?_eq_some_iff.mp fields, ?_⟩
      rw [UInt32.toNat_ofNat_of_lt' below, UInt64.toNat_ofNat_of_lt' below',
        UInt64.toNat_ofNat_of_lt' below'']
      exact ⟨first, second, third⟩
    · cases read
  · rintro ⟨_, _, _, gives, first, second, third⟩
    have first := (readField_eq_some_iff chunks).mpr ⟨first, limits.maxChunks.toNat_lt_size⟩
    have second := (readField_eq_some_iff calls).mpr ⟨second, limits.maxCalls.toNat_lt_size⟩
    have third := (readField_eq_some_iff parameters).mpr
      ⟨third, limits.maxParameters.toNat_lt_size⟩
    rw [ofJson?, Json.record?_eq_some_iff.mpr gives]
    simp [first, second, third]

theorem recorded_toJson (limits : Limits) : limits.Recorded limits.toJson :=
  ⟨_, _, _, Json.gives_ofFields rfl rfl (by decide), .given, .given, .given⟩

end Limits

/-! ### Responses -/

namespace Response

/-- An object whose only key tells a result from an error, with a record of all fields. -/
inductive Recorded : Response → Json → Prop
  | result {value errno body} :
      body.Gives ["value", "errno"] [some (.ofInt value.toInt), some (.ofInt errno.toInt)] →
      Recorded (.result value errno) (.ofFields [("Return", body)])
  | error {code body} : body.Gives ["code"] [some (.ofNat code.toNat)] →
      Recorded (.error code) (.ofFields [("Error", body)])

/-- The numbers that are read are those of 64 bits, written without a fraction or an exponent. -/
theorem integer?_eq_some_iff {json : Json} {value : Int64} :
    integer? json = some value ↔ json = .ofInt value.toInt := by
  rw [integer?, Option.map_eq_some_iff]
  constructor
  · rintro ⟨number, found, rfl⟩
    obtain ⟨rfl, least, greatest⟩ := Json.integerWithin?_eq_some_iff.mp found
    rw [Int64.toInt_ofInt_of_le least (Int.lt_of_le_sub_one greatest)]
  · rintro rfl
    refine ⟨value.toInt, Json.integerWithin?_eq_some_iff.mpr ⟨rfl, value.le_toInt, ?_⟩,
      value.ofInt_toInt⟩
    exact Int.le_sub_one_of_lt value.toInt_lt

theorem ofJson?_eq_some_iff {json : Json} {response : Response} :
    ofJson? json = some response ↔ response.Recorded json := by
  constructor
  · intro read
    unfold ofJson? at read
    split at read
    next body found =>
      rw [Json.variant?_eq_some_iff.mp found]
      split at read
      next fields =>
        simp only [Option.bind_eq_bind, Option.bind_eq_some_iff, integer?_eq_some_iff] at read
        obtain ⟨_, rfl, _, rfl, made⟩ := read
        cases made
        exact .result (Json.record?_eq_some_iff.mp fields)
      · cases read
    next body found =>
      rw [Json.variant?_eq_some_iff.mp found]
      split at read
      next fields =>
        obtain ⟨number, natural, rfl⟩ := Option.map_eq_some_iff.mp read
        obtain ⟨rfl, below⟩ := Json.naturalBelow?_eq_some_iff.mp natural
        have gives := Json.record?_eq_some_iff.mp fields
        rw [← UInt32.toNat_ofNat_of_lt' below] at gives
        exact .error gives
      · cases read
    · cases read
  · intro recorded
    have integral (value : Int64) : integer? (.ofInt value.toInt) = some value :=
      integer?_eq_some_iff.mpr rfl
    cases recorded with
    | @result value errno body gives =>
      have single : (Json.ofFields [("Return", body)]).variant? = some ("Return", body) := rfl
      simp [ofJson?, single, Json.record?_eq_some_iff.mpr gives, integral]
    | @error code body gives =>
      have single : (Json.ofFields [("Error", body)]).variant? = some ("Error", body) := rfl
      have natural : (Json.ofNat code.toNat).naturalBelow? UInt32.size = some code.toNat :=
        Json.naturalBelow?_eq_some_iff.mpr ⟨rfl, code.toNat_lt_size⟩
      simp [ofJson?, single, Json.record?_eq_some_iff.mpr gives, natural]

theorem recorded_toJson (response : Response) : response.Recorded response.toJson := by
  cases response with
  | result value errno => exact .result (Json.gives_ofFields rfl rfl (by decide))
  | error code => exact .error (Json.gives_ofFields rfl rfl (by decide))

end Response

/-! ### All forms -/

theorem Configuration.recorded_toJson (config : Configuration) :
    config.terms.Recorded config.toJson :=
  ⟨_, .name, Json.gives_ofFields rfl rfl (by decide)⟩

theorem ByteOrder.writable_toJson (order : ByteOrder) : order.toJson.Writable :=
  Json.writable_ofText order.name

theorem Configuration.writable_toJson (config : Configuration) : config.toJson.Writable := by
  apply Json.writable_ofFields
  simp [Json.writable_ofNat, ByteOrder.writable_toJson]

theorem Limits.writable_toJson (limits : Limits) : limits.toJson.Writable := by
  apply Json.writable_ofFields
  simp [Json.writable_ofNat]

theorem Response.writable_toJson (response : Response) : response.toJson.Writable := by
  cases response with
  | result value errno =>
    apply Json.writable_ofFields
    simp only [List.forall_mem_singleton]
    apply Json.writable_ofFields
    simp [Json.writable_ofInt]
  | error code =>
    apply Json.writable_ofFields
    simp only [List.forall_mem_singleton]
    apply Json.writable_ofFields
    simp [Json.writable_ofNat]

/-- Byte orders, configurations, limits and responses are kept as JSON: whichever text lays out a
form of a value, with whatever blanks, its fields in whatever order with others between them, or an
array in their place, the text that is written in its stead has the same value and stays as it
is. -/
theorem json_forms_are_kept :
    Json.Keeps ByteOrder.toJson ByteOrder.ofJson? ByteOrder.Spelled ∧
    Json.Keeps Configuration.toJson Configuration.ofJson?
      (fun config => config.terms.Recorded) ∧
    Json.Keeps Limits.toJson Limits.ofJson? Limits.Recorded ∧
    Json.Keeps Response.toJson Response.ofJson? Response.Recorded := by
  refine ⟨?_, ?_, ?_, ?_⟩
  · exact Json.keeps_of_form (fun _ _ => ByteOrder.ofJson?_eq_some_iff) (fun _ => .name)
      ByteOrder.writable_toJson
  · exact Json.keeps_of_form (fun _ _ => Configuration.ofJson?_eq_some_iff)
      Configuration.recorded_toJson Configuration.writable_toJson
  · exact Json.keeps_of_form (fun _ _ => Limits.ofJson?_eq_some_iff) Limits.recorded_toJson
      Limits.writable_toJson
  · exact Json.keeps_of_form (fun _ _ => Response.ofJson?_eq_some_iff) Response.recorded_toJson
      Response.writable_toJson

example :
    Json.rewrite? Limits.toJson Limits.ofJson?
      "\x7b \"x\": [1.5e3, \x7b\x7d], \"max\\u005Fcalls\" : 7 \x7d\n" =
    some "\x7b\"max_chunks\":256,\"max_calls\":7,\"max_parameters\":64\x7d" := by
  decide +kernel

end Semihosting
