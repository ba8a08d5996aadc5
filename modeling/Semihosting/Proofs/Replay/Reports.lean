import Semihosting.Proofs.Json.Forms
import Semihosting.Proofs.Json.Indentation
import Semihosting.Proofs.Replay.Accounting
import Semihosting.Replay.Report

/-!
# Reports read back

A report gives every field of its summary. Main statement: reading a report restores the summary,
also with a newline behind it (`restore?_report`), so no two summaries have the same report.
-/
namespace Semihosting

namespace Json

def natural? : Json → Option Nat
  | .scalar (.integer (.ofNat value)) => some value
  | _ => none

def text? : Json → Option String
  | .string text => text
  | _ => none

def texts? : Json → Option (List String)
  | .array items => items.mapM text?
  | _ => none

theorem natural?_ofNat (value : Nat) : (ofNat value).natural? = some value := rfl

theorem texts?_ofText (texts : List String) :
    (array (texts.map ofText)).texts? = some texts := by
  induction texts with
  | nil => rfl
  | cons text rest ih =>
    rw [texts?] at ih
    simp [texts?, List.mapM_cons, ih, ofText, text?]

end Json

/-- Codes have different names, so counts can be told apart in a report. -/
theorem ProtocolCode.name_injective {left right : ProtocolCode} (same : left.name = right.name) :
    left = right := by
  cases left <;> cases right <;> first | rfl | exact absurd same (by decide)

namespace Replay

namespace Tally

/-- How often a code was counted, by its field. A code without a field was not counted. -/
def readCount : Option Json → Option Nat
  | none => some 0
  | some json => json.natural?

/-- The tally in an object from names to counts. -/
def ofJson? (json : Json) : Option Tally :=
  match json.record? (ProtocolCode.all.map ProtocolCode.name) with
  | some [chunk, parameters, riff, configuration, operation] => do
    return {
      invalidChunk := ← readCount chunk
      malformedRiff := ← readCount riff
      missingConfiguration := ← readCount configuration
      unsupportedOperation := ← readCount operation
      invalidParameters := ← readCount parameters }
  | _ => none

/-- The field of a code in an object from names to counts. -/
def field (count : Nat) : Option Json := if count = 0 then none else some (.ofNat count)

theorem readCount_field (count : Nat) : readCount (field count) = some count := by
  by_cases zero : count = 0
  · simp [field, zero, readCount]
  · simp [field, zero, readCount, Json.natural?_ofNat]

/-- A tally is written with the fields of the codes that were counted and no others. -/
theorem gives_toJson (tally : Tally) :
    tally.toJson.Gives (ProtocolCode.all.map ProtocolCode.name)
      (ProtocolCode.all.map fun code => field (tally.count code)) := by
  let fields : List (String × Json) :=
    tally.toList.map fun counted => (counted.1.name, .ofNat counted.2)
  have nodup : (fields.map Prod.fst).Nodup := by
    have names : fields.map Prod.fst = (tally.toList.map Prod.fst).map ProtocolCode.name := by
      simp [fields, Function.comp_def]
    rw [names]
    exact List.pairwise_map.mpr
      (tally.nodup_codes.imp fun ne same => ne (ProtocolCode.name_injective same))
  refine .object (Json.exists_textual_iff.mp ⟨fields, rfl⟩) ?_
  rw [List.forall₂_map_left_iff, List.forall₂_map_right_iff, List.forall₂_same]
  intro code _
  change Json.Holds (Json.textual fields) code.name (field (tally.count code))
  by_cases zero : tally.count code = 0
  · -- No field has the name of a code that was not counted.
    rw [field, if_pos zero, Json.holds_none_iff, Json.occurrences, List.countP_eq_zero]
    intro written member
    obtain ⟨⟨other, count⟩, listed, rfl⟩ := List.mem_map.mp member
    obtain ⟨rfl, positive⟩ := mem_toList_iff.mp listed
    simp only [decide_eq_true_eq]
    intro same
    rw [ProtocolCode.name_injective same] at positive
    exact positive zero
  · rw [field, if_neg zero]
    have listed : (code, tally.count code) ∈ tally.toList := mem_toList_iff.mpr ⟨rfl, zero⟩
    exact Json.holds_of_mem nodup _ (List.mem_map_of_mem listed)

theorem ofJson?_toJson (tally : Tally) : ofJson? tally.toJson = some tally := by
  rw [ofJson?, Json.record?_eq_some_iff.mpr tally.gives_toJson]
  simp [ProtocolCode.all, readCount_field, count]

theorem writable_toJson (tally : Tally) : tally.toJson.Writable := by
  apply Json.writable_ofFields
  intro written member
  obtain ⟨_, _, rfl⟩ := List.mem_map.mp member
  exact Json.writable_ofNat _

end Tally

namespace Summary

def fieldNames : List String :=
  ["entries", "mutations", "accepted", "rejected", "rejections", "inconsistent"]

/-- The summary in a record of all its fields. -/
def ofJson? (json : Json) : Option Summary :=
  match json.record? fieldNames with
  | some [some entries, some mutations, some accepted, some rejected, some rejections,
      some inconsistent] => do
    return {
      entries := ← entries.natural?
      mutations := ← mutations.natural?
      accepted := ← accepted.natural?
      rejected := ← rejected.natural?
      rejections := ← Tally.ofJson? rejections
      inconsistent := ← inconsistent.texts? }
  | _ => none

theorem ofJson?_toJson (summary : Summary) : ofJson? summary.toJson = some summary := by
  have gives : summary.toJson.Gives fieldNames [some (.ofNat summary.entries),
      some (.ofNat summary.mutations), some (.ofNat summary.accepted),
      some (.ofNat summary.rejected), some summary.rejections.toJson,
      some (.array (summary.inconsistent.map Json.ofText))] :=
    Json.gives_ofFields rfl rfl (by decide)
  rw [ofJson?, Json.record?_eq_some_iff.mpr gives]
  simp [Json.natural?_ofNat, Json.texts?_ofText, Tally.ofJson?_toJson]

theorem writable_toJson (summary : Summary) : summary.toJson.Writable := by
  have labels : (Json.array (summary.inconsistent.map Json.ofText)).Writable := by
    apply Json.writable_array
    intro item member
    obtain ⟨label, _, rfl⟩ := List.mem_map.mp member
    exact Json.writable_ofText label
  apply Json.writable_ofFields
  simp [Json.writable_ofNat, Tally.writable_toJson, labels]

/-- Reading a report restores the summary, whatever blanks stand behind it. -/
theorem restore?_report (summary : Summary) (ending : String)
    (blank : ∀ char ∈ ending.toList, Json.Token.isBlank char = true) :
    Json.restore? ofJson? (summary.report ++ ending) = some summary := by
  rw [Json.restore?, report, Json.read?_pretty summary.writable_toJson blank, Option.bind_some,
    ofJson?_toJson]

example :
    report ⟨2, 4, 5, 1, ⟨0, 1, 0, 0, 0⟩, []⟩ =
      "\x7b\n  \"entries\": 2,\n  \"mutations\": 4,\n  \"accepted\": 5,\n  \"rejected\": 1,\n" ++
      "  \"rejections\": \x7b\n    \"MalformedRiff\": 1\n  \x7d,\n  \"inconsistent\": []\n\x7d" := by
  decide +kernel

end Summary

end Replay

end Semihosting
