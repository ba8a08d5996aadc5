import Semihosting.Riff.Writer

/-!
# Scripts for a writer

A script is a list of writing steps, some of which build a nested region by a script of their own.
A step that fails leaves its writer as it was and the script goes on; a script that is abandoned
runs no further step, and if it was building a nested region, that region is dropped. Beside the
region that a script writes stands the record of its completed steps.
-/
namespace Semihosting.Riff

/-- One step of writing a region. -/
inductive Step where
  /-- Append a frame. -/
  | push (tag : FourCC) (payload : Bytes)
  /-- Append the frame of a header and the region that a script builds behind it. -/
  | nested (tag : FourCC) (header : Bytes) (steps : List Step)
  /-- Give up the script this step stands in. -/
  | abandon (fault : Fault)
  deriving Repr

/-- What a completed step left: the length of the writer it ran on, and its fault if it failed. -/
structure Step.Record where
  length : Nat
  fault : Option Fault
  deriving DecidableEq, Repr

/-- The state of a script: what it wrote, what its steps left, and why it was abandoned, if it
was. -/
structure Script where
  writer : Writer
  records : List Step.Record
  abandoned : Option Fault
  deriving DecidableEq, Repr

namespace Script

def start (writer : Writer) : Script := ⟨writer, [], none⟩

/-- The region that the script built, unless it was abandoned. -/
def built (script : Script) : Except Fault Writer :=
  match script.abandoned with
  | none => .ok script.writer
  | some fault => .error fault

/-- Takes over the outcome of a step. A step that failed leaves the writer as it was. -/
def complete (script : Script) : Except Fault Writer → Script
  | .ok writer => { script with writer, records := script.records ++ [⟨writer.length, none⟩] }
  | .error fault =>
    { script with records := script.records ++ [⟨script.writer.length, some fault⟩] }

mutual

/-- Runs one step. The records of a nested script come before the record of its own step. -/
def step (script : Script) : Step → Script
  | .push tag payload => script.complete (script.writer.push tag payload)
  | .nested tag header steps =>
    -- Run once, for its region and for its records.
    let inner := run (start ⟨header⟩) steps
    let script := { script with records := script.records ++ inner.records }
    script.complete (script.writer.pushNested tag header fun _ => inner.built)
  | .abandon fault => { script with abandoned := some fault }

/-- Runs steps in order until one abandons the script. -/
def run (script : Script) : List Step → Script
  | [] => script
  | first :: rest =>
    let script := step script first
    if script.abandoned.isSome then script else run script rest

end

end Script

end Semihosting.Riff
