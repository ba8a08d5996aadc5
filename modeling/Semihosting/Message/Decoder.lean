import Semihosting.Message.Event
import Semihosting.Riff.Container

/-!
# Reading a message event by event

A decoder walks the body of a container and yields its events one at a time, skipping the chunks
that mean nothing. Its first fault is its last item; a message is never partly recovered. Main
statement: each event makes the unread part shorter (`unread_lt_of_next`), so every run ends.
-/
namespace Semihosting.Message

open Riff (Container Walk)

/-- A place in a message that is being read. -/
structure Decoder where
  /-- The chunks that have not been read. -/
  walk : Walk
  /-- What the chunks before said. -/
  progress : Progress
  /-- The limits the message is read under. -/
  limits : Limits
  /-- Whether a fault has ended the reading. -/
  failed : Bool
  deriving DecidableEq, Repr

namespace Decoder

def start (limits : Limits) (body : Bytes) : Decoder :=
  ⟨Walk.start body limits.maxChunks, .start, limits, false⟩

def ofMessage (limits : Limits) (buffer : Bytes) : Except Fault Decoder :=
  (Container.read buffer).map fun container => start limits container.body

def config (decoder : Decoder) : Option Configuration := decoder.progress.config

/-- The next event or the fault in its place, and the decoder behind it; nothing once the decoder
has failed or the message is used up. -/
def next (decoder : Decoder) : Option (Except Fault Event) × Decoder :=
  if decoder.failed then (none, decoder)
  else match _read : decoder.walk.next with
    | (none, walk) => (none, { decoder with walk })
    | (some (.error fault), walk) => (some (.error fault), { decoder with walk, failed := true })
    | (some (.ok chunk), walk) =>
      match decoder.progress.accept decoder.limits chunk with
      | .error fault => (some (.error fault), { decoder with walk, failed := true })
      | .ok (none, progress) => next { decoder with walk, progress }
      | .ok (some event, progress) => (some (.ok event), { decoder with walk, progress })
termination_by decoder.walk.unread.length
decreasing_by exact Walk.unread_lt_of_next _read

theorem unread_lt_of_next {decoder after : Decoder} {event : Event}
    (read : decoder.next = (some (.ok event), after)) :
    after.walk.unread.length < decoder.walk.unread.length := by
  fun_induction next decoder with
  | case1 => cases read
  | case2 => cases read
  | case3 => cases read
  | case4 => cases read
  | case5 decoder _ chunk walk found progress _ ih =>
    exact Nat.lt_trans (ih read) (Walk.unread_lt_of_next found)
  | case6 decoder _ chunk walk found _ progress _ =>
    cases read
    exact Walk.unread_lt_of_next found

/-- Hands the events to `step` one after another. The first fault ends it. -/
def fold {α : Type} (step : α → Event → α) (decoder : Decoder) (state : α) : Except Fault α :=
  match _read : decoder.next with
  | (none, _) => .ok state
  | (some (.error fault), _) => .error fault
  | (some (.ok event), after) => fold step after (step state event)
termination_by decoder.walk.unread.length
decreasing_by exact unread_lt_of_next _read

/-- The events that can be read, and the fault that ends the reading if one does. -/
def trail (decoder : Decoder) : Trail Event :=
  match _read : decoder.next with
  | (none, _) => .done
  | (some (.error fault), _) => .broken fault
  | (some (.ok event), after) => (trail after).cons event
termination_by decoder.walk.unread.length
decreasing_by exact unread_lt_of_next _read

theorem trail_of_next_none {decoder after : Decoder} (ended : decoder.next = (none, after)) :
    decoder.trail = .done := by
  rw [trail]
  split <;> simp_all

theorem trail_of_next_error {decoder after : Decoder} {fault : Fault}
    (failed : decoder.next = (some (.error fault), after)) : decoder.trail = .broken fault := by
  rw [trail]
  split <;> simp_all

theorem trail_of_next_ok {decoder after : Decoder} {event : Event}
    (read : decoder.next = (some (.ok event), after)) :
    decoder.trail = after.trail.cons event := by
  rw [trail]
  split <;> simp_all

end Decoder

end Semihosting.Message
