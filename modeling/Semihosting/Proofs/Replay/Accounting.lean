import Mathlib.Algebra.GroupWithZero.Nat
import Semihosting.Proofs.Replay.Survival
import Semihosting.Replay.Summary

/-!
# Summaries account for every input

A run replays the entries of its corpus and, behind each, the varied forms that were drawn for it.
Each of these inputs is a message or is refused for one fault, and the summary counts it there and
nowhere else. Main result: whatever the corpus and however it is varied, the counts of the summary
are those of the replayed inputs (`summary_accounts_for_every_input`).
-/
namespace Semihosting.Replay

/-! ### Tallies -/

namespace Tally

theorem ext_count {left right : Tally} (same : ∀ code, left.count code = right.count code) :
    left = right := by
  cases left
  cases right
  simp only [mk.injEq]
  exact ⟨same .invalidChunk, same .malformedRiff, same .missingConfiguration,
    same .unsupportedOperation, same .invalidParameters⟩

def plus (first second : Tally) : Tally where
  invalidChunk := first.invalidChunk + second.invalidChunk
  malformedRiff := first.malformedRiff + second.malformedRiff
  missingConfiguration := first.missingConfiguration + second.missingConfiguration
  unsupportedOperation := first.unsupportedOperation + second.unsupportedOperation
  invalidParameters := first.invalidParameters + second.invalidParameters

theorem count_plus (first second : Tally) (code : ProtocolCode) :
    (first.plus second).count code = first.count code + second.count code := by
  cases code <;> rfl

theorem mem_toList_iff {tally : Tally} {code : ProtocolCode} {count : Nat} :
    (code, count) ∈ tally.toList ↔ count = tally.count code ∧ count ≠ 0 := by
  simp only [toList, List.mem_filter, List.mem_map, Prod.mk.injEq, decide_eq_true_eq]
  constructor
  · rintro ⟨⟨_, _, rfl, rfl⟩, positive⟩
    exact ⟨rfl, positive⟩
  · rintro ⟨rfl, positive⟩
    exact ⟨⟨code, code.mem_all, rfl, rfl⟩, positive⟩

theorem nodup_codes (tally : Tally) : (tally.toList.map Prod.fst).Nodup := by
  have listed : (tally.toList.map Prod.fst).Sublist ProtocolCode.all := by
    have kept : tally.toList.Sublist (ProtocolCode.all.map fun code => (code, tally.count code)) :=
      List.filter_sublist
    simpa [Function.comp_def] using kept.map Prod.fst
  exact listed.nodup (by decide)

/-- Leaving out the codes that were not counted leaves nothing out of the sum. -/
theorem sum_toList (tally : Tally) :
    (tally.toList.map Prod.snd).sum = (ProtocolCode.all.map tally.count).sum := by
  have dropZeros (pairs : List (ProtocolCode × Nat)) :
      ((pairs.filter fun pair => pair.2 ≠ 0).map Prod.snd).sum = (pairs.map Prod.snd).sum := by
    induction pairs with
    | nil => rfl
    | cons pair rest ih =>
      by_cases zero : pair.2 = 0
      · rw [List.filter_cons_of_neg (by simp [zero]), ih, List.map_cons, List.sum_cons, zero,
          Nat.zero_add]
      · rw [List.filter_cons_of_pos (by simp [zero]), List.map_cons, List.map_cons, List.sum_cons,
          List.sum_cons, ih]
  rw [toList, dropZeros, List.map_map]
  rfl

theorem sum_add (tally : Tally) (code : ProtocolCode) :
    (ProtocolCode.all.map (tally.add code).count).sum =
      (ProtocolCode.all.map tally.count).sum + 1 := by
  cases code <;> simp [ProtocolCode.all, count, add] <;> omega

end Tally

/-! ### Single inputs -/

namespace Outcome

variable {limits : Limits} {input : Bytes}

/-- No call of a message fails to survive. -/
theorem ofInput_of_ok {made : List Call} (read : Message.calls limits input = .ok made) :
    ofInput limits input = .accepted made.length := by
  have survivors : made.find? (fun call => !call.survives limits) = none := by
    rw [List.find?_eq_none]
    intro call member
    simp [survives_of_calls read member]
  simp [ofInput, read, survivors]

theorem ofInput_of_error {fault : Fault} (refused : Message.calls limits input = .error fault) :
    ofInput limits input = .rejected fault := by
  simp [ofInput, refused]

end Outcome

def isMessage (limits : Limits) (input : Bytes) : Bool := (Message.calls limits input).isOk

def isRefusedAs (limits : Limits) (code : ProtocolCode) (input : Bytes) : Bool :=
  match Message.calls limits input with
  | .ok _ => false
  | .error fault => fault.code = code

theorem isRefusedAs_unsupportedOperation (limits : Limits) (input : Bytes) :
    isRefusedAs limits .unsupportedOperation input = false := by
  unfold isRefusedAs
  cases Message.calls limits input with
  | ok made => rfl
  | error fault => exact decide_eq_false fault.code_ne_unsupportedOperation

/-- What replaying some inputs adds to a summary. -/
structure Counted (limits : Limits) (inputs : List Bytes) (before after : Summary) : Prop where
  accepted : after.accepted = before.accepted + inputs.countP (isMessage limits)
  rejected : after.rejected = before.rejected + inputs.countP fun input => !isMessage limits input
  rejections : ∀ code, after.rejections.count code =
    before.rejections.count code + inputs.countP (isRefusedAs limits code)
  total : (ProtocolCode.all.map after.rejections.count).sum + before.rejected =
    (ProtocolCode.all.map before.rejections.count).sum + after.rejected
  inconsistent : after.inconsistent = before.inconsistent

namespace Counted

variable {limits : Limits} {front back : List Bytes} {before middle after : Summary}

theorem nil (limits : Limits) (summary : Summary) : Counted limits [] summary summary where
  accepted := rfl
  rejected := rfl
  rejections _ := rfl
  total := rfl
  inconsistent := rfl

theorem append (first : Counted limits front before middle)
    (second : Counted limits back middle after) : Counted limits (front ++ back) before after where
  accepted := by rw [second.accepted, first.accepted, List.countP_append, Nat.add_assoc]
  rejected := by rw [second.rejected, first.rejected, List.countP_append, Nat.add_assoc]
  rejections code := by
    rw [second.rejections, first.rejections, List.countP_append, Nat.add_assoc]
  total := by
    have := first.total
    have := second.total
    omega
  inconsistent := second.inconsistent.trans first.inconsistent

/-- One replay counts its input once, as a message or under the code of its fault. -/
theorem replay (limits : Limits) (summary : Summary) (label : String) (input : Bytes) :
    Counted limits [input] summary (summary.replay limits label input) := by
  -- An input is counted once: as accepted, or as rejected under the code of its fault.
  cases read : Message.calls limits input with
  | ok made =>
    have message : isMessage limits input = true := by
      simp [isMessage, read, Except.isOk, Except.toBool]
    have unrefused (code) : isRefusedAs limits code input = false := by simp [isRefusedAs, read]
    rw [Summary.replay, Outcome.ofInput_of_ok read]
    constructor <;> simp [Summary.add, message, unrefused]
  | error fault =>
    have message : isMessage limits input = false := by
      simp [isMessage, read, Except.isOk, Except.toBool]
    have refused (code) : isRefusedAs limits code input = decide (code = fault.code) := by
      simp [isRefusedAs, read, eq_comm]
    rw [Summary.replay, Outcome.ofInput_of_error read]
    constructor
    case total =>
      simp only [Summary.add, Tally.sum_add]
      omega
    all_goals simp [Summary.add, message, refused, Tally.count_add, List.countP_singleton]

end Counted

/-! ### Runs -/

section Run

variable {σ : Type} (limits : Limits) (vary : Bytes → StateM σ Bytes)

/-- So many varied forms of an input, in the order in which they are drawn. -/
def variations (input : Bytes) : Nat → σ → List Bytes × σ
  | 0, state => ([], state)
  | count + 1, state =>
    let drawn := variations input count state
    let form := vary input drawn.2
    (drawn.1 ++ [form.1], form.2)

/-- The inputs that a corpus comes to: each entry, and behind it so many varied forms. -/
def inputs (iterations : Nat) : List Entry → σ → List Bytes × σ
  | [], state => ([], state)
  | entry :: rest, state =>
    let (forms, state) := variations vary entry.bytes iterations state
    let (later, state) := inputs iterations rest state
    (entry.bytes :: forms ++ later, state)

theorem length_variations (input : Bytes) (count : Nat) (state : σ) :
    (variations vary input count state).1.length = count := by
  induction count with
  | zero => rfl
  | succ count ih =>
    rw [variations, List.length_append, ih]
    rfl

theorem length_inputs (iterations : Nat) (corpus : List Entry) (state : σ) :
    (inputs vary iterations corpus state).1.length =
      corpus.length + corpus.length * iterations := by
  induction corpus generalizing state with
  | nil => simp [inputs]
  | cons entry rest ih =>
    simp only [inputs, List.length_append, List.length_cons, length_variations, ih,
      Nat.add_mul, Nat.one_mul]
    omega

theorem inputs_zero (corpus : List Entry) (state : σ) :
    inputs vary 0 corpus state = (corpus.map Entry.bytes, state) := by
  induction corpus with
  | nil => rfl
  | cons entry rest ih => simp [inputs, variations, ih]

/-- What replaying a corpus from a summary on comes to: its inputs are counted, entries and varied
forms apart, and the state is the one behind the last draw. -/
structure Replayed (iterations : Nat) (corpus : List Entry) (state : σ) (before : Summary)
    (outcome : Summary × σ) : Prop where
  counted : Counted limits (inputs vary iterations corpus state).1 before outcome.1
  entries : outcome.1.entries = before.entries + corpus.length
  mutations : outcome.1.mutations = before.mutations + corpus.length * iterations
  state : outcome.2 = (inputs vary iterations corpus state).2

theorem entries_replay (summary : Summary) (label : String) (input : Bytes) :
    (summary.replay limits label input).entries = summary.entries := by
  cases outcome : Outcome.ofInput limits input <;> simp [Summary.replay, outcome, Summary.add]

theorem mutations_replay (summary : Summary) (label : String) (input : Bytes) :
    (summary.replay limits label input).mutations = summary.mutations := by
  cases outcome : Outcome.ofInput limits input <;> simp [Summary.replay, outcome, Summary.add]

/-- The varied forms of an entry are counted one after another. -/
theorem counted_variations (entry : Entry) (count : Nat) (before : Summary) (state : σ) :
    let outcome := count.fold
      (fun index _ (summary, state) => runVariation limits vary entry index summary state)
      (before, state)
    Counted limits (variations vary entry.bytes count state).1 before outcome.1 ∧
      outcome.1.entries = before.entries ∧ outcome.1.mutations = before.mutations + count ∧
      outcome.2 = (variations vary entry.bytes count state).2 := by
  induction count with
  | zero => exact ⟨.nil limits before, rfl, rfl, rfl⟩
  | succ count ih =>
    obtain ⟨counted, entries, mutations, drawn⟩ := ih
    simp only [Nat.fold_succ]
    generalize count.fold
      (fun index _ (summary, state) => runVariation limits vary entry index summary state)
      (before, state) = outcome at *
    obtain ⟨summary, state'⟩ := outcome
    -- Noting that a form is drawn changes none of the counts of its replay.
    have noted : Counted limits [] summary { summary with mutations := summary.mutations + 1 } :=
      ⟨rfl, rfl, fun _ => rfl, rfl, rfl⟩
    simp only at drawn entries mutations
    simp only [runVariation, variations, ← drawn]
    rcases vary entry.bytes state' with ⟨form, after⟩
    refine ⟨counted.append (noted.append (.replay limits _ _ _)), ?_, ?_, rfl⟩
    · rw [entries_replay]
      exact entries
    · rw [mutations_replay]
      simp only
      omega

/-- Replaying an entry replays its bytes and then, one after another, their variations. -/
theorem runEntry_replayed (iterations : Nat) (entry : Entry) (before : Summary) (state : σ) :
    Replayed limits vary iterations [entry] state before
      (runEntry limits vary iterations entry before state) := by
  have noted : Counted limits [] before { before with entries := before.entries + 1 } :=
    ⟨rfl, rfl, fun _ => rfl, rfl, rfl⟩
  have itself := noted.append (.replay limits _ entry.name entry.bytes)
  obtain ⟨counted, entries, mutations, drawn⟩ := counted_variations limits vary entry iterations
    (Summary.replay limits { before with entries := before.entries + 1 } entry.name entry.bytes)
    state
  refine ⟨?_, ?_, ?_, ?_⟩
  · simpa [inputs, runEntry] using itself.append counted
  · rw [runEntry, entries, entries_replay]
    rfl
  · rw [runEntry, mutations, mutations_replay]
    simp
  · simpa [inputs, runEntry] using drawn

/-- A run counts its inputs. -/
theorem runCorpus_replayed (iterations : Nat) (corpus : List Entry) (before : Summary)
    (state : σ) :
    Replayed limits vary iterations corpus state before
      (runCorpus limits vary iterations corpus before state) := by
  induction corpus generalizing before state with
  | nil => exact ⟨.nil limits before, rfl, by simp [runCorpus], rfl⟩
  | cons entry rest ih =>
    have first := runEntry_replayed limits vary iterations entry before state
    rw [runCorpus]
    generalize runEntry limits vary iterations entry before state = outcome at first ⊢
    obtain ⟨summary, state'⟩ := outcome
    have later := ih summary state'
    -- The rest is varied from where the first entry left the state.
    have drawn : state' = (variations vary entry.bytes iterations state).2 := first.state
    refine ⟨?_, ?_, ?_, ?_⟩
    · simpa [inputs, drawn] using first.counted.append later.counted
    · rw [later.entries, first.entries]
      simp only [List.length_cons, List.length_nil]
      omega
    · rw [later.mutations, first.mutations]
      simp only [List.length_cons, List.length_nil, Nat.add_mul]
      omega
    · rw [later.state, drawn]
      rfl

end Run

/-! ### Summaries -/

def Summary.plus (first second : Summary) : Summary where
  entries := first.entries + second.entries
  mutations := first.mutations + second.mutations
  accepted := first.accepted + second.accepted
  rejected := first.rejected + second.rejected
  rejections := first.rejections.plus second.rejections
  inconsistent := first.inconsistent ++ second.inconsistent

/-- The counts of a summary are those of its inputs, in whatever order these came. -/
theorem Counted.eq_of_perm {limits : Limits} {front back : List Bytes}
    {before left right : Summary} (perm : front.Perm back)
    (first : Counted limits front before left) (second : Counted limits back before right)
    (entries : left.entries = right.entries) (mutations : left.mutations = right.mutations) :
    left = right := by
  obtain ⟨accepted, rejected, rejections, -, inconsistent⟩ := first
  obtain ⟨accepted', rejected', rejections', -, inconsistent'⟩ := second
  rw [perm.countP_eq, ← accepted'] at accepted
  rw [perm.countP_eq, ← rejected'] at rejected
  have tallies : left.rejections = right.rejections := by
    apply Tally.ext_count
    intro code
    rw [rejections, rejections', perm.countP_eq]
  cases left
  cases right
  simp_all

/-- Two summaries that start from nothing add up to the summary of all inputs. -/
theorem Counted.plus {limits : Limits} {front back : List Bytes} {left right : Summary}
    (first : Counted limits front .empty left) (second : Counted limits back .empty right) :
    Counted limits (front ++ back) .empty (left.plus right) where
  accepted := by
    rw [Summary.plus, first.accepted, second.accepted, List.countP_append]
    simp [Summary.empty]
  rejected := by
    rw [Summary.plus, first.rejected, second.rejected, List.countP_append]
    simp [Summary.empty]
  rejections code := by
    rw [Summary.plus, Tally.count_plus, first.rejections, second.rejections, List.countP_append]
    cases code <;> simp [Summary.empty, Tally.zero, Tally.count]
  total := by
    have := first.total
    have := second.total
    simp only [Summary.plus, ProtocolCode.all, Tally.count_plus, List.map_cons, List.map_nil,
      List.sum_cons, List.sum_nil] at *
    simp only [Summary.empty, Tally.zero, Tally.count] at *
    omega
  inconsistent := by
    rw [Summary.plus, first.inconsistent, second.inconsistent]
    rfl

/-- A summary in which every entry and every varied form is counted where it belongs. The rejections
are a map from codes to counts. -/
structure Summary.Accounts (limits : Limits) (corpus : List Entry) (iterations : Nat)
    (inputs : List Bytes) (summary : Summary) : Prop where
  entries : summary.entries = corpus.length
  mutations : summary.mutations = corpus.length * iterations
  replayed : inputs.length = summary.entries + summary.mutations
  outcomes : summary.accepted + summary.rejected = summary.entries + summary.mutations
  accepted : summary.accepted = inputs.countP (isMessage limits)
  inconsistent : summary.inconsistent = []
  distinct : (summary.rejections.toList.map Prod.fst).Nodup
  codes : ∀ code count, (code, count) ∈ summary.rejections.toList →
    code ∈ [.malformedRiff, .invalidChunk, .missingConfiguration, .invalidParameters]
  counts : ∀ code count, (code, count) ∈ summary.rejections.toList ↔
    0 < count ∧ count = inputs.countP (isRefusedAs limits code)
  rejected : (summary.rejections.toList.map Prod.snd).sum = summary.rejected

theorem Counted.accounts {limits : Limits} {corpus : List Entry} {iterations : Nat}
    {inputs : List Bytes} {summary : Summary} (counted : Counted limits inputs .empty summary)
    (entries : summary.entries = corpus.length)
    (mutations : summary.mutations = corpus.length * iterations)
    (length : inputs.length = corpus.length + corpus.length * iterations) :
    summary.Accounts limits corpus iterations inputs := by
  obtain ⟨accepted, rejected, rejections, total, inconsistent⟩ := counted
  have count (code : ProtocolCode) :
      summary.rejections.count code = inputs.countP (isRefusedAs limits code) := by
    rw [rejections]
    cases code <;> exact Nat.zero_add _
  rw [Summary.empty, Nat.zero_add] at accepted rejected
  constructor
  case entries => exact entries
  case mutations => exact mutations
  case replayed => rw [length, entries, mutations]
  case outcomes =>
    -- Every input is a message or is none.
    rw [accepted, rejected, entries, mutations, ← length]
    simpa using (List.length_eq_countP_add_countP (isMessage limits) (l := inputs)).symm
  case accepted => exact accepted
  case inconsistent => exact inconsistent
  case distinct => exact summary.rejections.nodup_codes
  case codes =>
    intro code number listed
    obtain ⟨same, positive⟩ := Tally.mem_toList_iff.mp listed
    rw [same, count] at positive
    obtain ⟨input, -, refused⟩ := List.countP_pos_iff.mp (Nat.pos_of_ne_zero positive)
    cases code with
    | unsupportedOperation =>
      rw [isRefusedAs_unsupportedOperation] at refused
      cases refused
    | _ => simp
  case counts =>
    intro code number
    rw [Tally.mem_toList_iff, count, Nat.pos_iff_ne_zero, and_comm]
  case rejected =>
    rw [Tally.sum_toList]
    simpa [Summary.empty, ProtocolCode.all, Tally.zero, Tally.count] using total

/-- Whatever is drawn, a run from the empty summary accounts for its inputs. -/
theorem accounts_runCorpus {σ : Type} (limits : Limits) (vary : Bytes → StateM σ Bytes)
    (iterations : Nat) (corpus : List Entry) (state : σ) :
    (runCorpus limits vary iterations corpus .empty state).1.Accounts limits corpus iterations
      (inputs vary iterations corpus state).1 := by
  obtain ⟨counted, entries, mutations, -⟩ :=
    runCorpus_replayed limits vary iterations corpus .empty state
  exact counted.accounts (by simpa [Summary.empty] using entries)
    (by simpa [Summary.empty] using mutations) (length_inputs vary iterations corpus state)

/-- The summary of a run accounts for every input that was replayed, whatever the corpus and however
its entries are varied. A run without varied forms gives the same summary in whatever order the
entries come, and that of two corpora in a row is the sum of their summaries. -/
theorem summary_accounts_for_every_input {σ : Type} (limits : Limits)
    (vary : Bytes → StateM σ Bytes) (iterations : Nat) (corpus : List Entry) (state : σ) :
    (runCorpus limits vary iterations corpus .empty state).1.Accounts limits corpus iterations
        (inputs vary iterations corpus state).1 ∧
      (∀ other, corpus.Perm other →
        (runCorpus limits vary 0 other .empty state).1 =
          (runCorpus limits vary 0 corpus .empty state).1) ∧
      ∀ later, (runCorpus limits vary 0 (corpus ++ later) .empty state).1 =
        (runCorpus limits vary 0 corpus .empty state).1.plus
          (runCorpus limits vary 0 later .empty state).1 := by
  -- Without varied forms the inputs are the entries.
  have plain (corpus : List Entry) :
      Counted limits (corpus.map Entry.bytes) .empty
          (runCorpus limits vary 0 corpus .empty state).1 ∧
        (runCorpus limits vary 0 corpus .empty state).1.entries = corpus.length ∧
        (runCorpus limits vary 0 corpus .empty state).1.mutations = 0 := by
    obtain ⟨counted, entries, mutations, -⟩ := runCorpus_replayed limits vary 0 corpus .empty state
    rw [inputs_zero] at counted
    exact ⟨counted, by simpa [Summary.empty] using entries,
      by simpa [Summary.empty] using mutations⟩
  refine ⟨accounts_runCorpus limits vary iterations corpus state, ?_, ?_⟩
  · intro other perm
    obtain ⟨counted, entries, mutations⟩ := plain corpus
    obtain ⟨counted', entries', mutations'⟩ := plain other
    exact counted'.eq_of_perm (perm.symm.map _) counted (by rw [entries, entries', perm.length_eq])
      (by rw [mutations, mutations'])
  · intro later
    obtain ⟨counted, entries, mutations⟩ := plain corpus
    obtain ⟨counted', entries', mutations'⟩ := plain later
    obtain ⟨together, entries'', mutations''⟩ := plain (corpus ++ later)
    rw [List.map_append] at together
    refine together.eq_of_perm (.refl _) (counted.plus counted') ?_ ?_
    · rw [entries'', Summary.plus, entries, entries', List.length_append]
    · rw [mutations'', Summary.plus, mutations, mutations']

/-- Two entries of one name: a container with no chunks, and one with a call before any
configuration. -/
def twins : List Entry :=
  [⟨"twin", Riff.Container.wrap []⟩, ⟨"twin", Riff.Container.wrap (Riff.Frame.mk .call []).bytes⟩]

/-- Keeps one byte more of each input than of the one before. -/
def clip (input : Bytes) : StateM Nat Bytes := fun length => (input.take length, length + 1)

theorem summary_accounts_for_twins :
    (runCorpus .standard clip 1 twins .empty 0).1 = ⟨2, 2, 1, 3, ⟨0, 2, 1, 0, 0⟩, []⟩ ∧
    (runCorpus .standard clip 1 twins .empty 0).1.Accounts .standard twins 1
      [Riff.Container.wrap [], [], Riff.Container.wrap (Riff.Frame.mk .call []).bytes, [0x52]] ∧
    twins.Perm twins.reverse ∧
    (runCorpus .standard clip 0 twins.reverse .empty 0).1 =
      (runCorpus .standard clip 0 twins .empty 0).1 := by
  have computed :
      (runCorpus .standard clip 1 twins .empty 0).1 = ⟨2, 2, 1, 3, ⟨0, 2, 1, 0, 0⟩, []⟩ := by
    decide +kernel
  obtain ⟨accounts, reordered, -⟩ := summary_accounts_for_every_input .standard clip 1 twins 0
  have perm : twins.Perm twins.reverse := (List.reverse_perm twins).symm
  exact ⟨computed, accounts, perm, reordered _ perm⟩

end Semihosting.Replay
