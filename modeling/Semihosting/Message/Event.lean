import Semihosting.Request.Decode
import Semihosting.Response

/-!
# Events

Read from left to right, each chunk of a message means something under what came before it: a
configuration replaces the one in effect, a call and a result need one, an error stands for itself,
and a chunk of any other kind means nothing. This module holds the meaning of one chunk.
-/
namespace Semihosting.Message

open Riff (Chunk)

/-- What a chunk of a message says. -/
inductive Event where
  /-- The configuration that later chunks are read under. -/
  | configured (config : Configuration)
  /-- A request, read under the configuration in effect. -/
  | call (call : Call)
  /-- A result or an error. -/
  | response (response : Response)
  deriving DecidableEq, Repr

/-- What a reader remembers of the chunks before. -/
structure Progress where
  /-- The configuration in effect. -/
  config : Option Configuration
  /-- The number of calls so far. -/
  calls : Nat
  deriving DecidableEq, Repr

namespace Progress

def start : Progress := ⟨none, 0⟩

def acceptConfiguration (progress : Progress) (chunk : Chunk) :
    Except Fault (Option Event × Progress) :=
  (Configuration.negotiate chunk).map fun config =>
    (some (.configured config), { progress with config := some config })

/-- A chunk that carries a call. The bound on calls is judged before anything else. -/
def acceptCall (limits : Limits) (progress : Progress) (chunk : Chunk) :
    Except Fault (Option Event × Progress) :=
  if limits.maxCalls.toNat ≤ progress.calls then
    .error (.limitExceeded .calls limits.maxCalls.toNat)
  else match progress.config with
    | none => .error .notConfigured
    | some config =>
      (Request.decode config limits chunk.payload).map fun request =>
        (some (.call ⟨config, request⟩), { progress with calls := progress.calls + 1 })

def acceptResult (progress : Progress) (chunk : Chunk) : Except Fault (Option Event × Progress) :=
  match progress.config with
  | none => .error .notConfigured
  | some config =>
    (Response.decodeResult config chunk.payload).map fun response =>
      (some (.response response), progress)

/-- A chunk that carries an error. It needs no configuration. -/
def acceptError (progress : Progress) (chunk : Chunk) : Except Fault (Option Event × Progress) :=
  (Response.decodeError chunk.payload).map fun response => (some (.response response), progress)

/-- The event a chunk stands for, if it stands for one, and what is remembered behind it. -/
def accept (limits : Limits) (progress : Progress) (chunk : Chunk) :
    Except Fault (Option Event × Progress) :=
  -- The four tags differ, so the order of the cases does not matter.
  if chunk.tag = .cnfg then progress.acceptConfiguration chunk
  else if chunk.tag = .call then progress.acceptCall limits chunk
  else if chunk.tag = .retn then progress.acceptResult chunk
  else if chunk.tag = .erro then progress.acceptError chunk
  else .ok (none, progress)

end Progress

end Semihosting.Message
