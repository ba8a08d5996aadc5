import Mathlib.Data.List.Forall2
import Semihosting.Command.Program
import Semihosting.Proofs.Files.Tree
import Semihosting.Proofs.Files.Writing
import Semihosting.Proofs.Replay.Mutations
import Semihosting.Proofs.Replay.Reports

/-!
# The command is all or nothing

A run of the command in a lawful world of files either delivers the report that its settings ask
for, or fails and leaves no trace. Main result: there are no other ways to end, each failure has one
of the reasons named here, and no report that was delivered counts as a failure
(`command_is_all_or_nothing`).
-/
namespace Semihosting.Command

open Files (Access LawfulAccess Tree World)
open Replay (Entry Generator Summary)

variable {σ : Type} [Access (StateM σ)]

/-! ### What settings find -/

/-- An entry is the regular file of that name in a directory. -/
structure IsEntry (world : σ) (directory name : String) (entry : Entry) : Prop where
  named : entry.name = name
  held : World.read world (within directory name) = some entry.bytes

/-- A text that is a report of the summary, and from which the summary is restored. -/
structure Reports (text : String) (summary : Summary) : Prop where
  written : text = summary.report
  restored : Json.restore? Summary.ofJson? text = some summary

namespace Settings

variable (settings : Settings) (world : σ)

/-- The limits are the standard ones, or those in the file that the settings name. -/
inductive FindsLimits : Limits → Prop
  | standard : settings.limits = none → FindsLimits .standard
  | read {path content text limits} : settings.limits = some path →
      World.read world path = some content → Files.decodeText? content = some text →
      (Json.read? text).bind Limits.ofJson? = some limits → FindsLimits limits

/-- The corpus is the built-in one, or the regular files of the directory that the settings name, in
the order of their names. -/
inductive FindsCorpus : List Entry → Prop
  | builtin {corpus} : settings.corpus = none → Replay.Builtin.corpus = .ok corpus →
      FindsCorpus corpus
  | read {path names files corpus} : settings.corpus = some path →
      World.list world path = some names →
      List.Forall₂ (IsEntry world path)
        (names.filter fun name => World.isFile world (within path name)) files →
      corpus.Perm files → corpus.Pairwise (fun first second => first.name ≤ second.name) →
      FindsCorpus corpus

/-- The report can be printed, or the file that the settings name can be opened for writing. -/
def CanDeliver : Prop := ∀ path, settings.output = some path → World.opens world path ≠ none

/-- What keeps the command from its report: first the limits, then the corpus, then the output. -/
inductive Hindered : Problem → Prop
  | unreadableLimits {path} : settings.limits = some path →
      (World.read world path).bind Files.decodeText? = none → Hindered (.unreadableLimits path)
  | invalidLimits {path text} : settings.limits = some path →
      (World.read world path).bind Files.decodeText? = some text →
      (Json.read? text).bind Limits.ofJson? = none → Hindered (.invalidLimits path)
  | unreadableCorpus {limits path} : settings.FindsLimits world limits →
      settings.corpus = some path → World.list world path = none →
      Hindered (.unreadableCorpus path)
  | unreadableEntry {limits path names name} : settings.FindsLimits world limits →
      settings.corpus = some path → World.list world path = some names → name ∈ names →
      World.isFile world (within path name) = true →
      World.read world (within path name) = none → Hindered (.unreadableEntry (within path name))
  | unwritableOutput {limits corpus path} : settings.FindsLimits world limits →
      settings.FindsCorpus world corpus → settings.output = some path →
      ¬settings.CanDeliver world → Hindered (.unwritableOutput path)

/-- The report is printed with a newline and no file changes, or nothing is printed and the file
that the settings name is the only one to change. What is still read by its path is the report. -/
inductive Delivers [World σ] (summary : Summary) : String → σ → Prop
  | printed {text} : settings.output = none → Reports text summary →
      Json.restore? Summary.ofJson? (text ++ "\n") = some summary →
      Delivers summary (text ++ "\n") world
  | written {path file bytes text after} : settings.output = some path →
      World.opens world path = some file → World.locate world path = some file →
      Files.decodeText? bytes = some text → Reports text summary →
      World.content after file = some bytes →
      (∀ found, World.read after path = some found → found = bytes) →
      World.ChangedOnly world after file → Delivers summary "" after

variable {settings : Settings} {world : σ}

theorem FindsLimits.not_unreadable {limits : Limits} {path : String}
    (found : settings.FindsLimits world limits) (named : settings.limits = some path) :
    ∃ text, (World.read world path).bind Files.decodeText? = some text ∧
      (Json.read? text).bind Limits.ofJson? = some limits := by
  cases found with
  | standard absent => simp [absent] at named
  | read named' content decoded parsed =>
    rw [named] at named'
    cases named'
    exact ⟨_, by simp [content, decoded], parsed⟩

/-- Where a corpus is found, the directory is listed and every regular file in it is read. -/
theorem FindsCorpus.readable {corpus : List Entry} {path : String}
    (found : settings.FindsCorpus world corpus) (named : settings.corpus = some path) :
    ∃ names, World.list world path = some names ∧
      ∀ name ∈ names, World.isFile world (within path name) = true →
        World.read world (within path name) ≠ none := by
  cases found with
  | builtin absent => simp [absent] at named
  | read named' listed entries =>
    rw [named] at named'
    cases named'
    refine ⟨_, listed, ?_⟩
    intro name member file
    have read := entries.imp fun name entry own =>
      (⟨by simp [own.held], own⟩ : World.read world (within path name) ≠ none ∧ _)
    obtain ⟨readable, -⟩ := (List.forall₂_and_left _ _).mp read
    exact readable name (List.mem_filter.mpr ⟨member, file⟩)

theorem Delivers.canDeliver [World σ] {summary : Summary} {output : String} {after : σ}
    (delivers : settings.Delivers world summary output after) : settings.CanDeliver world := by
  intro path named
  cases delivers with
  | printed absent => simp [absent] at named
  | written named' opened =>
    rw [named] at named'
    cases named'
    simp [opened]

/-- What hinders the command and what it needs exclude each other. -/
theorem Hindered.false {problem : Problem} {limits : Limits} {corpus : List Entry}
    (hindered : settings.Hindered world problem) (limited : settings.FindsLimits world limits)
    (stocked : settings.FindsCorpus world corpus) (able : settings.CanDeliver world) : False := by
  -- Every reason contradicts what was found at the same place.
  cases hindered with
  | unreadableLimits named unreadable =>
    obtain ⟨text, decoded, -⟩ := limited.not_unreadable named
    simp [unreadable] at decoded
  | invalidLimits named read invalid =>
    obtain ⟨text, decoded, parsed⟩ := limited.not_unreadable named
    rw [read] at decoded
    cases decoded
    simp [invalid] at parsed
  | unreadableCorpus _ named unlisted =>
    obtain ⟨names, listed, -⟩ := stocked.readable named
    simp [unlisted] at listed
  | unreadableEntry _ named listed member file unreadable =>
    obtain ⟨names, listed', readable⟩ := stocked.readable named
    rw [listed] at listed'
    cases listed'
    exact readable _ member file unreadable
  | unwritableOutput _ _ _ unable => exact unable able

/-! ### What a run does -/

variable [World σ] [LawfulAccess σ]

/-- Loading the limits changes no file. It gives those that the settings ask for, or the reason why
there are none. -/
theorem loadLimits_cases (settings : Settings) (world : σ) :
    (∃ limits, (settings.loadLimits : StateM σ _).run world = (.ok limits, world) ∧
        settings.FindsLimits world limits) ∨
      ∃ problem, (settings.loadLimits : StateM σ _).run world = (.error problem, world) ∧
        settings.Hindered world problem := by
  unfold loadLimits
  cases named : settings.limits with
  | none => exact Or.inl ⟨_, rfl, .standard named⟩
  | some path =>
    simp only [Command.loadLimits, run_bind, LawfulAccess.run_readFile]
    cases decoded : (World.read world path).bind Files.decodeText? with
    | none => exact Or.inr ⟨_, rfl, .unreadableLimits named decoded⟩
    | some text =>
      obtain ⟨content, read, utf8⟩ := Option.bind_eq_some_iff.mp decoded
      dsimp only
      cases parsed : (Json.read? text).bind Limits.ofJson? with
      | none => exact Or.inr ⟨_, rfl, .invalidLimits named decoded parsed⟩
      | some limits => exact Or.inl ⟨_, rfl, .read named read utf8 parsed⟩

theorem inOrder_trans (first second third : Entry) (below : inOrder first second = true)
    (above : inOrder second third = true) : inOrder first third = true := by
  simp only [inOrder, decide_eq_true_eq] at *
  exact String.le_trans below above

theorem inOrder_total (first second : Entry) :
    (inOrder first second || inOrder second first) = true := by
  simp only [inOrder, Bool.or_eq_true, decide_eq_true_eq]
  exact String.le_total _ _

/-- Of the names in a directory, those of regular files become entries, unless one of these files
cannot be read. -/
theorem loadEntries_cases (world : σ) (directory : String) (names : List String) :
    (∃ files, (loadEntries directory names : StateM σ _).run world = (.ok files, world) ∧
        List.Forall₂ (IsEntry world directory)
          (names.filter fun name => World.isFile world (within directory name)) files) ∨
      ∃ name ∈ names, World.isFile world (within directory name) = true ∧
        World.read world (within directory name) = none ∧
        (loadEntries directory names : StateM σ _).run world =
          (.error (.unreadableEntry (within directory name)), world) := by
  induction names with
  | nil => exact Or.inl ⟨[], rfl, .nil⟩
  | cons name rest ih =>
    simp only [loadEntries, run_bind, LawfulAccess.run_isFile]
    cases file : World.isFile world (within directory name) with
    | false =>
      rw [List.filter_cons_of_neg (by simp [file])]
      rcases ih with found | ⟨other, member, regular, unreadable, failed⟩
      · exact Or.inl found
      · exact Or.inr ⟨other, List.mem_cons_of_mem _ member, regular, unreadable, failed⟩
    | true =>
      rw [List.filter_cons_of_pos (by simp [file]), if_pos rfl, run_bind,
        LawfulAccess.run_readFile]
      cases held : World.read world (within directory name) with
      | none => exact Or.inr ⟨name, List.mem_cons_self, file, held, rfl⟩
      | some bytes =>
        dsimp only
        rw [run_bind]
        rcases ih with ⟨files, loaded, entries⟩ | ⟨other, member, regular, unreadable, failed⟩
        · rw [loaded]
          exact Or.inl ⟨⟨name, bytes⟩ :: files, rfl, .cons ⟨rfl, held⟩ entries⟩
        · rw [failed]
          exact Or.inr ⟨other, List.mem_cons_of_mem _ member, regular, unreadable, rfl⟩

theorem loadCorpus_cases {limits : Limits} (limited : settings.FindsLimits world limits) :
    (∃ corpus, (settings.loadCorpus : StateM σ _).run world = (.ok corpus, world) ∧
        settings.FindsCorpus world corpus) ∨
      ∃ problem, (settings.loadCorpus : StateM σ _).run world = (.error problem, world) ∧
        settings.Hindered world problem := by
  unfold loadCorpus
  cases named : settings.corpus with
  | none =>
    -- The built-in corpus is written once and for all, without a fault.
    obtain ⟨corpus, built⟩ : ∃ corpus, Replay.Builtin.corpus = .ok corpus := ⟨_, rfl⟩
    exact Or.inl ⟨corpus, by rw [built]; rfl, .builtin named built⟩
  | some path =>
    simp only [Command.loadCorpus, run_bind, LawfulAccess.run_list]
    cases listed : World.list world path with
    | none => exact Or.inr ⟨_, rfl, .unreadableCorpus limited named listed⟩
    | some names =>
      dsimp only
      rw [run_bind]
      rcases loadEntries_cases world path names with
        ⟨files, loaded, entries⟩ | ⟨name, member, file, unreadable, failed⟩
      · rw [loaded]
        refine Or.inl ⟨_, rfl, .read named listed entries (List.mergeSort_perm _ _) ?_⟩
        have sorted := List.pairwise_mergeSort inOrder_trans inOrder_total files
        exact sorted.imp fun below => of_decide_eq_true below
      · rw [failed]
        exact Or.inr ⟨_, rfl, .unreadableEntry limited named listed member file unreadable⟩

/-- The report is delivered, or its file cannot be opened and nothing has changed. -/
theorem deliver_cases {limits : Limits} {corpus : List Entry}
    (limited : settings.FindsLimits world limits) (stocked : settings.FindsCorpus world corpus)
    (summary : Summary) :
    (∃ output after, (deliver settings.output summary : StateM σ _).run world =
        (.reported summary output, after) ∧ settings.Delivers world summary output after) ∨
      ∃ problem, (deliver settings.output summary : StateM σ _).run world =
        (.failed problem, world) ∧ settings.Hindered world problem := by
  have reports : Reports summary.report summary :=
    ⟨rfl, by simpa using summary.restore?_report "" (by simp)⟩
  unfold deliver
  cases named : settings.output with
  | none =>
    have printed := summary.restore?_report "\n" (by simp [Json.Token.isBlank])
    exact Or.inl ⟨_, _, rfl, .printed named reports printed⟩
  | some path =>
    cases opened : World.opens world path with
    | none =>
      simp only [run_bind, Files.run_writeFile_of_none _ opened]
      exact Or.inr ⟨_, rfl, .unwritableOutput limited stocked named fun able =>
        able path named opened⟩
    | some file =>
      obtain ⟨after, written, located, held, kept⟩ :=
        Files.run_writeFile_of_some (Files.encodeText summary.report) opened
      -- The path still leads to the file, so what is read there is what was written.
      have reread (found : Bytes) (read : World.read after path = some found) :
          found = Files.encodeText summary.report := by
        have same := Files.content_of_read_after kept located read
        rw [held] at same
        exact (Option.some.inj same).symm
      simp only [run_bind, written]
      exact Or.inl ⟨_, _, rfl, .written named opened located (Files.decodeText?_encodeText _)
        reports held reread kept⟩

end Settings

/-- The ways in which a run in a world of files ends. -/
inductive Ends [World σ] [Generator] (arguments : List String) (environment : Option String)
    (world : σ) : Ending → σ → Prop
  | misused {misuse} : Settings.ofArguments arguments environment = .error misuse →
      Ends arguments environment world (.misused misuse) world
  | failed {settings problem} : Settings.ofArguments arguments environment = .ok settings →
      settings.Hindered world problem → Ends arguments environment world (.failed problem) world
  | reported {settings limits corpus output after} :
      Settings.ofArguments arguments environment = .ok settings →
      settings.FindsLimits world limits → settings.FindsCorpus world corpus →
      settings.Delivers world (Replay.run limits settings.seed settings.iterations corpus)
        output after →
      Ends arguments environment world
        (.reported (Replay.run limits settings.seed settings.iterations corpus) output) after

section

variable [World σ] [LawfulAccess σ] [Generator]

/-- Every run ends in one of the ways that are listed, in a world as it is left there. -/
theorem run_ends (arguments : List String) (environment : Option String) (world : σ) :
    let outcome := (run arguments environment : StateM σ Ending).run world
    Ends arguments environment world outcome.1 outcome.2 := by
  unfold run
  cases understood : Settings.ofArguments arguments environment with
  | error misuse => exact .misused understood
  | ok settings =>
    simp only [Settings.run, run_bind]
    rcases settings.loadLimits_cases world with ⟨limits, loaded, limited⟩ | ⟨problem, loaded, why⟩
    · rw [loaded]
      dsimp only
      rw [run_bind]
      rcases Settings.loadCorpus_cases limited with
        ⟨corpus, loaded, stocked⟩ | ⟨problem, loaded, why⟩
      · rw [loaded]
        dsimp only
        rcases Settings.deliver_cases limited stocked
            (Replay.run limits settings.seed settings.iterations corpus) with
          ⟨output, after, delivered, delivers⟩ | ⟨problem, delivered, why⟩
        · rw [delivered]
          exact .reported understood limited stocked delivers
        · rw [delivered]
          exact .failed understood why
      · rw [loaded]
        exact .failed understood why
    · rw [loaded]
      exact .failed understood why

end

/-- A run counts the entries and their mutations. -/
theorem accounts_run [Generator] (limits : Limits) (seed : UInt64) (iterations : Nat)
    (corpus : List Entry) :
    ∃ inputs, Replay.Varied iterations corpus inputs ∧
      (Replay.run limits seed iterations corpus).Accounts limits corpus iterations inputs :=
  ⟨_, Replay.varied_inputs iterations corpus _,
    Replay.accounts_runCorpus limits Replay.mutate iterations corpus _⟩

/-- A run of the command ends in one of three ways, whatever its mutations are drawn from and in
whatever lawful world of files. If its arguments are not understood it fails with 2, and if
something hinders it from its report it fails with 1; either way it prints nothing and changes no
file. Otherwise it succeeds and delivers the report on its corpus under its limits, which accounts
for every entry and every mutation. It never fails behind a report. -/
theorem command_is_all_or_nothing [Generator] {σ : Type} [Access (StateM σ)] [World σ]
    [LawfulAccess σ] (arguments : List String) (environment : Option String) (world : σ) :
    let outcome := (run arguments environment : StateM σ Ending).run world
    (outcome.1.exitCode = 2 ↔
      ∃ misuse, Settings.ofArguments arguments environment = .error misuse) ∧
    (outcome.1.exitCode = 1 ↔ ∃ settings problem,
      Settings.ofArguments arguments environment = .ok settings ∧
        settings.Hindered world problem) ∧
    (outcome.1.exitCode = 0 ↔ ∃ settings limits corpus summary inputs,
      Settings.ofArguments arguments environment = .ok settings ∧
        settings.FindsLimits world limits ∧ settings.FindsCorpus world corpus ∧
        settings.CanDeliver world ∧
        summary = Replay.run limits settings.seed settings.iterations corpus ∧
        Replay.Varied settings.iterations corpus inputs ∧
        summary.Accounts limits corpus settings.iterations inputs ∧
        settings.Delivers world summary outcome.1.output outcome.2) ∧
    (outcome.1.exitCode = 0 ∨ outcome.1.output = "" ∧ outcome.2 = world) ∧
    ∀ summary output, outcome.1 = .reported summary output →
      summary.inconsistent = [] ∧ outcome.1.exitCode = 0 := by
  have ends := run_ends arguments environment world
  intro outcome
  change Ends arguments environment world outcome.1 outcome.2 at ends
  generalize outcome.1 = ending, outcome.2 = after at ends ⊢
  -- Each way to end has its own code, and what it needs rules out the other ways.
  cases ends with
  | misused misunderstood => simp [Ending.exitCode, Ending.output, misunderstood]
  | @failed settings problem understood hindered =>
    refine ⟨?_, ?_, ?_, Or.inr ⟨rfl, rfl⟩, fun _ _ same => nomatch same⟩
    · simp [Ending.exitCode, understood]
    · exact iff_of_true rfl ⟨settings, problem, understood, hindered⟩
    · refine iff_of_false (by simp [Ending.exitCode]) ?_
      rintro ⟨settings', limits, corpus, _, _, understood', limited, stocked, able, -⟩
      rw [understood] at understood'
      cases understood'
      exact hindered.false limited stocked able
  | @reported settings limits corpus output after understood limited stocked delivers =>
    obtain ⟨inputs, varied, accounts⟩ :=
      accounts_run limits settings.seed settings.iterations corpus
    generalize same : Replay.run limits settings.seed settings.iterations corpus = summary at *
    have exit : (Ending.reported summary output).exitCode = 0 := if_pos accounts.inconsistent
    rw [exit]
    refine ⟨?_, ?_, ?_, Or.inl rfl, ?_⟩
    · simp [understood]
    · refine iff_of_false (by decide) ?_
      rintro ⟨settings', problem, understood', hindered⟩
      rw [understood] at understood'
      cases understood'
      exact hindered.false limited stocked delivers.canDeliver
    · exact iff_of_true rfl ⟨settings, limits, corpus, summary, inputs, understood, limited,
        stocked, delivers.canDeliver, same.symm, varied, accounts, delivers⟩
    · rintro _ _ ⟨⟩
      exact ⟨accounts.inconsistent, rfl⟩

/-- A file of limits, written as a list, and a directory with a message in it. -/
def shelf : Tree :=
  (Tree.empty.makeFile ["limits.json"] (Files.encodeText "[4]")).makeFile ["seeds", "plain"]
    (Riff.Container.wrap [])

theorem report_lands_in_its_file :
    let outcome := (run ["--corpus=../work/seeds/", "--limits", "limits.json",
      "--output=/tmp/out.json"] (some "0") : StateM Tree Ending).run shelf
    LawfulAccess Tree ∧ outcome.1.exitCode = 0 ∧ outcome.1.output = "" ∧
    outcome.2.read "../out.json" = some (Files.encodeText
      (Summary.report ⟨1, 0, 1, 0, .zero, []⟩)) ∧
    ∃ settings limits corpus, Settings.ofArguments
        ["--corpus=../work/seeds/", "--limits", "limits.json", "--output=/tmp/out.json"]
          (some "0") = .ok settings ∧
      settings.FindsLimits shelf limits ∧ settings.FindsCorpus shelf corpus := by
  have succeeds : ((run ["--corpus=../work/seeds/", "--limits", "limits.json",
      "--output=/tmp/out.json"] (some "0") : StateM Tree Ending).run shelf).1.exitCode = 0 := by
    decide +kernel
  -- That the run succeeds says, by the theorem, what it has found.
  obtain ⟨-, -, delivered, -⟩ := command_is_all_or_nothing
    ["--corpus=../work/seeds/", "--limits", "limits.json", "--output=/tmp/out.json"] (some "0")
    shelf
  obtain ⟨settings, limits, corpus, _, _, understood, limited, stocked, -⟩ :=
    delivered.mp succeeds
  exact ⟨Tree.lawfulAccess, succeeds, by decide +kernel, by decide +kernel, settings, limits,
    corpus, understood, limited, stocked⟩

end Semihosting.Command
