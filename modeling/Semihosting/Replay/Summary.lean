import Semihosting.Replay.Mutation
import Semihosting.Replay.Outcome
import Semihosting.Replay.Tally

/-!
# Replaying a corpus

Each entry of a corpus is replayed as it is, and then as often as asked in a varied form. The
summary counts what was replayed and how it came out. How entries are varied is a parameter of the
run, so that what is said about summaries holds for every choice of variations.
-/
namespace Semihosting.Replay

structure Entry where
  name : String
  bytes : Bytes
  deriving DecidableEq, Repr

/-- How replaying a corpus came out. -/
structure Summary where
  /-- The entries replayed as they are. -/
  entries : Nat
  /-- The varied forms replayed. -/
  mutations : Nat
  /-- The inputs that are messages. -/
  accepted : Nat
  /-- The inputs that were refused. -/
  rejected : Nat
  /-- The refused inputs by the protocol code of their fault. -/
  rejections : Tally
  /-- The labels of the inputs that hold a call which does not survive. -/
  inconsistent : List String
  deriving DecidableEq, Repr

namespace Summary

def empty : Summary := ⟨0, 0, 0, 0, .zero, []⟩

/-- Takes note of how an input came out. -/
def add (summary : Summary) (label : String) : Outcome → Summary
  | .accepted _ => { summary with accepted := summary.accepted + 1 }
  | .rejected fault =>
    { summary with
      rejected := summary.rejected + 1
      rejections := summary.rejections.add fault.code }
  | .inconsistent _ => { summary with inconsistent := summary.inconsistent ++ [label] }

def replay (limits : Limits) (summary : Summary) (label : String) (input : Bytes) : Summary :=
  summary.add label (Outcome.ofInput limits input)

end Summary

section Run

variable {σ : Type} (limits : Limits) (vary : Bytes → StateM σ Bytes)

def Entry.label (entry : Entry) (index : Nat) : String :=
  entry.name ++ "#" ++ toString index

def runVariation (entry : Entry) (index : Nat) (summary : Summary) (state : σ) : Summary × σ :=
  let (input, state) := vary entry.bytes state
  let summary := { summary with mutations := summary.mutations + 1 }
  (summary.replay limits (entry.label index) input, state)

/-- Replays an entry as it is and in so many varied forms. -/
def runEntry (iterations : Nat) (entry : Entry) (summary : Summary) (state : σ) : Summary × σ :=
  let summary := { summary with entries := summary.entries + 1 }
  let summary := summary.replay limits entry.name entry.bytes
  iterations.fold
    (fun index _ (summary, state) => runVariation limits vary entry index summary state)
    (summary, state)

def runCorpus (iterations : Nat) : List Entry → Summary → σ → Summary × σ
  | [], summary, state => (summary, state)
  | entry :: rest, summary, state =>
    let (summary, state) := runEntry limits vary iterations entry summary state
    runCorpus iterations rest summary state

end Run

/-- The summary of a corpus whose entries are varied by random mutations from a seed. -/
def run [Generator] (limits : Limits) (seed : UInt64) (iterations : Nat) (corpus : List Entry) :
    Summary :=
  (runCorpus limits mutate iterations corpus .empty (Generator.ofSeed seed)).1

end Semihosting.Replay
