import Semihosting.Message.Calls

/-!
# Replaying one input

An input is replayed by reading it as a message and checking that each call in it survives: written
again on its own and read back under the same limits, it is the same call.
-/
namespace Semihosting

/-- Whether writing a call and reading it back under the limits gives that call and no other. -/
def Call.survives (limits : Limits) (call : Call) : Bool :=
  match Message.ofRequest call.config call.request with
  | .error _ => false
  | .ok message =>
    match Message.calls limits message with
    | .ok [again] => again = call
    | _ => false

namespace Replay

/-- What replaying an input showed. -/
inductive Outcome where
  /-- The input is a message, and all its calls survive. -/
  | accepted (calls : Nat)
  /-- The input is refused as a message. -/
  | rejected (fault : Fault)
  /-- A call in the input does not survive. -/
  | inconsistent (opcode : UInt32)
  deriving DecidableEq, Repr

def Outcome.ofInput (limits : Limits) (input : Bytes) : Outcome :=
  match Message.calls limits input with
  | .error fault => .rejected fault
  | .ok calls =>
    match calls.find? fun call => !call.survives limits with
    | some call => .inconsistent call.request.opcode
    | none => .accepted calls.length

end Replay

end Semihosting
