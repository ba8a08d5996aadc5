import Semihosting.Message.Reply
import Semihosting.Proofs.Message.RoundTrip

/-!
# Runs

A message is read in one run, which either refuses the container or yields events up to its end or
to the first fault. Main statements: the calls and the reply in a message are what its run yields
(`calls_eq_yielded`, `reply_eq_yielded`), so they are there exactly if the run meets no fault
(`calls_eq_ok_iff`, `reply_eq_ok_iff`).
-/
namespace Semihosting.Message

open Riff (Container Walk)

/-- The events of a message with the fault that ends them, unless its container is refused. -/
def run (limits : Limits) (buffer : Bytes) : Except Fault (Trail Event) :=
  (Decoder.ofMessage limits buffer).map Decoder.trail

def replyOf (events : List Event) : Reply := events.foldl noteReply .empty

/-- A run is the transcript of the chunks in the container's body. -/
theorem run_eq (limits : Limits) (buffer : Bytes) :
    run limits buffer = (Container.read buffer).map fun container =>
      let chunks := (Walk.start container.body limits.maxChunks).trail
      transcript limits none 0 chunks.items chunks.fault := by
  rw [run, Decoder.ofMessage]
  cases Container.read buffer with
  | error refusal => rfl
  | ok container => exact congrArg Except.ok (Decoder.trail_eq_transcript rfl)

variable {limits : Limits} {buffer other : Bytes} {α : Type} {yield : List Event → α}

/-- What the events of a message come to, provided that no fault ends its run. -/
def yielded (limits : Limits) (buffer : Bytes) (yield : List Event → α) : Except Fault α :=
  (run limits buffer).bind fun trail => trail.conclude (yield trail.items)

theorem calls_eq_yielded (limits : Limits) (buffer : Bytes) :
    calls limits buffer = yielded limits buffer callsOf := by
  rw [calls, yielded, run]
  cases Decoder.ofMessage limits buffer with
  | error refusal => rfl
  | ok decoder =>
    simp only [Except.map, Except.bind]
    rw [Decoder.fold_eq, foldl_noteCall, List.nil_append]

theorem reply_eq_yielded (limits : Limits) (buffer : Bytes) :
    reply limits buffer = yielded limits buffer replyOf := by
  rw [reply, yielded, run]
  cases Decoder.ofMessage limits buffer with
  | error refusal => rfl
  | ok decoder => exact Decoder.fold_eq noteReply decoder .empty

/-- Something comes of a message exactly if its run has no fault; it comes of all the events. -/
theorem yielded_eq_ok_iff {result : α} :
    yielded limits buffer yield = .ok result ↔
      ∃ events, run limits buffer = .ok ⟨events, none⟩ ∧ yield events = result := by
  constructor
  · intro concluded
    obtain ⟨⟨events, fault⟩, same, finished⟩ := bind_eq_ok_iff.mp concluded
    obtain ⟨rfl, result⟩ := Trail.conclude_eq_ok_iff.mp finished
    exact ⟨events, same, result⟩
  · rintro ⟨events, same, rfl⟩
    rw [yielded, same]
    rfl

/-- The fault that stands in place of a result is that of the container or the one that ends the
run, whatever the events are for. -/
theorem yielded_eq_error_iff {fault : Fault} :
    yielded limits buffer yield = .error fault ↔
      Container.read buffer = .error fault ∨
        ∃ events, run limits buffer = .ok ⟨events, some fault⟩ := by
  have refused : run limits buffer = .error fault ↔ Container.read buffer = .error fault := by
    rw [run_eq]
    exact map_eq_error_iff
  rw [yielded, bind_eq_error_iff, refused]
  apply or_congr_right
  constructor
  · rintro ⟨⟨events, ended⟩, same, concluded⟩
    obtain rfl : ended = some fault := Trail.conclude_eq_error_iff.mp concluded
    exact ⟨events, same⟩
  · rintro ⟨events, same⟩
    exact ⟨_, same, Trail.conclude_eq_error_iff.mpr rfl⟩

/-- Whether a run meets a fault does not depend on what its events are for. -/
theorem yielded_accepted_iff :
    (∃ result, yielded limits buffer yield = .ok result) ↔
      ∃ events, run limits buffer = .ok ⟨events, none⟩ := by
  constructor
  · rintro ⟨result, read⟩
    obtain ⟨events, same, -⟩ := yielded_eq_ok_iff.mp read
    exact ⟨events, same⟩
  · rintro ⟨events, same⟩
    exact ⟨yield events, yielded_eq_ok_iff.mpr ⟨events, same, rfl⟩⟩

theorem calls_eq_ok_iff {made : List Call} :
    calls limits buffer = .ok made ↔
      ∃ events, run limits buffer = .ok ⟨events, none⟩ ∧ callsOf events = made := by
  rw [calls_eq_yielded, yielded_eq_ok_iff]

theorem reply_eq_ok_iff {said : Reply} :
    reply limits buffer = .ok said ↔
      ∃ events, run limits buffer = .ok ⟨events, none⟩ ∧ replyOf events = said := by
  rw [reply_eq_yielded, yielded_eq_ok_iff]

theorem calls_accepted_iff :
    (∃ made, calls limits buffer = .ok made) ↔
      ∃ events, run limits buffer = .ok ⟨events, none⟩ := by
  simp only [calls_eq_yielded, yielded_accepted_iff]

theorem reply_accepted_iff :
    (∃ said, reply limits buffer = .ok said) ↔
      ∃ events, run limits buffer = .ok ⟨events, none⟩ := by
  simp only [reply_eq_yielded, yielded_accepted_iff]

theorem calls_eq_of_run_eq (same : run limits buffer = run limits other) :
    calls limits buffer = calls limits other := by
  rw [calls_eq_yielded, calls_eq_yielded, yielded, yielded, same]

theorem reply_eq_of_run_eq (same : run limits buffer = run limits other) :
    reply limits buffer = reply limits other := by
  rw [reply_eq_yielded, reply_eq_yielded, yielded, yielded, same]

end Semihosting.Message
