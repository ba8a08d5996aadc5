import Semihosting.Decimal

/-!
# Options of the command

Options are given as `--name value` or `--name=value`, each at most once and under its full name;
there are no other arguments. A value that stands on its own may not look like an option. The number
of iterations can also come from the environment, which is looked at only if the option is absent.
-/
namespace Semihosting.Command

inductive Flag where
  | corpus
  | iterations
  | seed
  | limits
  | output
  deriving DecidableEq, Repr

namespace Flag

def name : Flag → String
  | corpus => "corpus"
  | iterations => "iterations"
  | seed => "seed"
  | limits => "limits"
  | output => "output"

def all : List Flag := [corpus, iterations, seed, limits, output]

def ofName? (name : String) : Option Flag := all.find? fun flag => flag.name = name

end Flag

/-- A way in which the arguments are not understood. -/
inductive Misuse where
  /-- An argument that is neither an option nor the value of one. -/
  | unexpected (argument : String)
  /-- An option without a value. -/
  | valueMissing (flag : Flag)
  /-- An option that is given twice. -/
  | repeated (flag : Flag)
  /-- An empty path. -/
  | emptyPath (flag : Flag)
  /-- A value that is no number or too large. -/
  | badNumber (flag : Flag) (value : String)
  deriving DecidableEq, Repr

def Misuse.message : Misuse → String
  | unexpected argument => s!"unexpected argument: {argument}"
  | valueMissing flag => s!"--{flag.name} needs a value"
  | repeated flag => s!"--{flag.name} cannot be given twice"
  | emptyPath flag => s!"--{flag.name} needs a path"
  | badNumber flag value => s!"--{flag.name} cannot be {value}"

/-- What the arguments and the environment ask for. -/
structure Settings where
  /-- The directory of the corpus; the built-in one if absent. -/
  corpus : Option String
  /-- How many mutations of each entry are replayed. -/
  iterations : Nat
  /-- The seed of the mutations. -/
  seed : UInt64
  /-- The file of the limits; the standard ones if absent. -/
  limits : Option String
  /-- The file for the report; standard output if absent. -/
  output : Option String
  deriving DecidableEq, Repr

def defaultIterations : Nat := 256

def defaultSeed : UInt64 := 0x5E31C0DE

/-- Splits an argument into the option it names and the value attached to it, if there is one. -/
def splitArgument? (argument : String) : Option (Flag × Option String) :=
  match argument.toList with
  | '-' :: '-' :: rest =>
    (Flag.ofName? (String.ofList (rest.takeWhile (· ≠ '=')))).map fun flag =>
      match rest.dropWhile (· ≠ '=') with
      | [] => (flag, none)
      | _ :: value => (flag, some (String.ofList value))
  | _ => none

/-- Whether an argument would be taken for an option. A single dash is not. -/
def looksLikeOption (argument : String) : Bool :=
  argument.toList.head? = some '-' && argument ≠ "-"

/-- The values given to options, in order. Two dashes on their own end the options. -/
def assignments : List String → Except Misuse (List (Flag × String))
  | [] => .ok []
  | ["--"] => .ok []
  | argument :: rest =>
    match splitArgument? argument with
    | none => .error (.unexpected argument)
    | some (flag, some value) => (assignments rest).map ((flag, value) :: ·)
    | some (flag, none) =>
      match rest with
      | [] => .error (.valueMissing flag)
      | value :: rest =>
        if looksLikeOption value then .error (.valueMissing flag)
        else (assignments rest).map ((flag, value) :: ·)

def single (given : List (Flag × String)) (flag : Flag) : Except Misuse (Option String) :=
  match given.filter fun pair => pair.1 = flag with
  | [] => .ok none
  | [(_, value)] => .ok (some value)
  | _ => .error (.repeated flag)

def path (given : List (Flag × String)) (flag : Flag) : Except Misuse (Option String) := do
  match ← single given flag with
  | some "" => .error (.emptyPath flag)
  | value => .ok value

/-- The number given to an option, or else the fallback text if there is one. -/
def number (given : List (Flag × String)) (flag : Flag) (fallback : Option String) :
    Except Misuse (Option Nat) := do
  let value ← single given flag
  match value.or fallback with
  | none => .ok none
  | some text =>
    match Decimal.parse? UInt64.size text with
    | some number => .ok (some number)
    | none => .error (.badNumber flag text)

/-- What the arguments and the variable for iterations ask for. -/
def Settings.ofArguments (arguments : List String) (environment : Option String) :
    Except Misuse Settings := do
  let given ← assignments arguments
  let corpus ← path given .corpus
  let iterations ← number given .iterations environment
  let seed ← number given .seed none
  let limits ← path given .limits
  let output ← path given .output
  return {
    corpus, limits, output
    iterations := iterations.getD defaultIterations
    seed := (seed.map UInt64.ofNat).getD defaultSeed }

end Semihosting.Command
