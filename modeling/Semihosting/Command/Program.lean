import Semihosting.Command.Options
import Semihosting.Files.Access
import Semihosting.Json.Forms
import Semihosting.Replay.Builtin
import Semihosting.Replay.Report

/-!
# The command

The command replays a corpus and reports the summary. It either delivers its report or leaves no
trace: everything it needs is read before anything is written.
-/
namespace Semihosting.Command

open Replay (Entry Summary)

/-- A file that could not be used. -/
inductive Problem where
  /-- The limits cannot be read as text. -/
  | unreadableLimits (path : String)
  /-- The text of the limits is not a JSON form of limits. -/
  | invalidLimits (path : String)
  /-- The corpus is not a directory that can be read. -/
  | unreadableCorpus (path : String)
  /-- A file in the directory of the corpus cannot be read. -/
  | unreadableEntry (path : String)
  /-- The built-in corpus cannot be written. -/
  | faultyCorpus (fault : Fault)
  /-- The report cannot be written. -/
  | unwritableOutput (path : String)
  deriving DecidableEq, Repr

def Problem.message : Problem → String
  | unreadableLimits path => s!"reading limits {path}"
  | invalidLimits path => s!"parsing limits {path}"
  | unreadableCorpus path => s!"reading corpus {path}"
  | unreadableEntry path => s!"reading {path}"
  | faultyCorpus fault => fault.message
  | unwritableOutput path => s!"writing {path}"

inductive Ending where
  /-- The arguments were not understood. -/
  | misused (misuse : Misuse)
  /-- A file could not be used. -/
  | failed (problem : Problem)
  /-- The summary was delivered, on standard output so far as `output` says. -/
  | reported (summary : Summary) (output : String)
  deriving DecidableEq, Repr

namespace Ending

/-- The exit code of the command. Inputs with calls that do not survive count as a failure even
though the report was delivered. -/
def exitCode : Ending → UInt32
  | misused _ => 2
  | failed _ => 1
  | reported summary _ => if summary.inconsistent = [] then 0 else 1

def output : Ending → String
  | reported _ output => output
  | _ => ""

def complaint : Ending → Option String
  | misused misuse => some misuse.message
  | failed problem => some problem.message
  | reported summary _ =>
    if summary.inconsistent = [] then none
    else
      some s!"{summary.inconsistent.length} inputs decoded to calls that did not re-encode"

end Ending

section Load

variable {m : Type → Type} [Monad m] [Files.Access m]

def loadLimits (path : String) : m (Except Problem Limits) := do
  match (← Files.Access.readFile path).bind Files.decodeText? with
  | none => return .error (.unreadableLimits path)
  | some text =>
    match (Json.read? text).bind Limits.ofJson? with
    | none => return .error (.invalidLimits path)
    | some limits => return .ok limits

/-- Whether an entry may stand in front of another: corpora are ordered by name. -/
def inOrder (first second : Entry) : Bool := first.name ≤ second.name

/-- The path to what has a name in a directory. -/
def within (directory name : String) : String :=
  if directory.toList.getLast? = some '/' then directory ++ name else directory ++ "/" ++ name

/-- The entries for those names in a directory that are regular files. -/
def loadEntries (directory : String) : List String → m (Except Problem (List Entry))
  | [] => return .ok []
  | name :: rest => do
    if ← Files.Access.isFile (within directory name) then
      match ← Files.Access.readFile (within directory name) with
      | none => return .error (.unreadableEntry (within directory name))
      | some bytes =>
        let entries ← loadEntries directory rest
        return entries.map (⟨name, bytes⟩ :: ·)
    else
      loadEntries directory rest

/-- The regular files directly in a directory, by name. -/
def loadCorpus (path : String) : m (Except Problem (List Entry)) := do
  match ← Files.Access.list path with
  | none => return .error (.unreadableCorpus path)
  | some names =>
    let entries ← loadEntries path names
    return entries.map (·.mergeSort inOrder)

def Settings.loadLimits (settings : Settings) : m (Except Problem Limits) :=
  match settings.limits with
  | none => return .ok .standard
  | some path => Command.loadLimits path

def Settings.loadCorpus (settings : Settings) : m (Except Problem (List Entry)) :=
  match settings.corpus with
  | none => return Replay.Builtin.corpus.mapError .faultyCorpus
  | some path => Command.loadCorpus path

/-- Delivers a report: to the output file as it is, or to standard output with a newline. -/
def deliver (output : Option String) (summary : Summary) : m Ending := do
  match output with
  | none => return .reported summary (summary.report ++ "\n")
  | some path =>
    if ← Files.writeFile path (Files.encodeText summary.report) then
      return .reported summary ""
    else
      return .failed (.unwritableOutput path)

variable [Replay.Generator]

/-- Runs the command with its settings. The limits are judged before the corpus. -/
def Settings.run (settings : Settings) : m Ending := do
  -- Both are loaded before the report is delivered, so a failure leaves no file behind.
  match ← settings.loadLimits with
  | .error problem => return .failed problem
  | .ok limits =>
    match ← settings.loadCorpus with
    | .error problem => return .failed problem
    | .ok corpus =>
      deliver settings.output (Replay.run limits settings.seed settings.iterations corpus)

/-- Runs the command with its arguments and the variable for iterations. -/
def run (arguments : List String) (environment : Option String) : m Ending :=
  match Settings.ofArguments arguments environment with
  | .error misuse => return .misused misuse
  | .ok settings => settings.run

end Load

end Semihosting.Command
