import Semihosting.Proofs.Message.Transcript
import Semihosting.Proofs.Riff.Enclosure

/-!
# Decoders leave transcripts

A decoder works through its walk with a loop of its own, which passes over chunks that say nothing,
and remembers the configuration, the number of calls and whether it has failed. Main result: however
long it runs, what it answers is the transcript of the chunks of its walk
(`decoder_answers_transcript`).
-/
namespace Semihosting.Message

open Riff (Container Walk)

namespace Decoder

def advance (decoder : Decoder) (calls : Nat) : Decoder :=
  (fun decoder => decoder.next.2)^[calls] decoder

/-! ### Single answers -/

theorem next_of_failed {decoder : Decoder} (failed : decoder.failed = true) :
    decoder.next = (none, decoder) := by
  rw [next, if_pos failed]

/-- A decoder that has not failed looks at the next chunk of its walk. -/
theorem next_of_alive {decoder : Decoder} (alive : decoder.failed = false) :
    decoder.next = match decoder.walk.next with
      | (none, walk) => (none, { decoder with walk })
      | (some (.error fault), walk) => (some (.error fault), { decoder with walk, failed := true })
      | (some (.ok chunk), walk) =>
        match decoder.progress.accept decoder.limits chunk with
        | .error fault => (some (.error fault), { decoder with walk, failed := true })
        | .ok (none, progress) => next { decoder with walk, progress }
        | .ok (some event, progress) => (some (.ok event), { decoder with walk, progress }) := by
  rw [next, if_neg (by simp [alive])]
  split
  next walk answer => simp only [answer]
  next fault walk answer => simp only [answer]
  next chunk walk answer =>
    rcases outcome : decoder.progress.accept decoder.limits chunk with _ | ⟨_ | _, _⟩ <;>
      simp only [answer, outcome]

/-- Once a decoder answers with nothing, it does so for good. -/
theorem next_of_next_none {decoder after : Decoder} (ended : decoder.next = (none, after)) :
    after.next = (none, after) := by
  fun_induction next decoder with
  | case1 decoder failed =>
    cases ended
    exact next_of_failed failed
  | case2 decoder alive walk ended' =>
    cases ended
    -- The walk has not moved, so asking again asks the same.
    have same := Walk.eq_of_next_none ended'
    subst same
    rw [next_of_alive (by simpa using alive)]
    simp only [ended']
  | case3 => cases ended
  | case4 => cases ended
  | case5 decoder alive chunk walk read progress accepted ih => exact ih ended
  | case6 => cases ended

theorem failed_of_next_error {decoder after : Decoder} {fault : Fault}
    (answer : decoder.next = (some (.error fault), after)) : after.failed = true := by
  fun_induction next decoder with
  | case1 => cases answer
  | case2 => cases answer
  | case3 =>
    cases answer
    rfl
  | case4 =>
    cases answer
    rfl
  | case5 decoder alive chunk walk read progress accepted ih => exact ih answer
  | case6 => cases answer

/-! ### Runs -/

theorem trail_congr {decoder other : Decoder} (same : decoder.next = other.next) :
    decoder.trail = other.trail := by
  rw [trail, trail, same]

/-- A decoder leaves the transcript of the chunks that its walk still reads. -/
theorem trail_eq_transcript {decoder : Decoder} (alive : decoder.failed = false) :
    decoder.trail = transcript decoder.limits decoder.progress.config decoder.progress.calls
      decoder.walk.trail.items decoder.walk.trail.fault := by
  -- The induction is on the unread bytes, because one answer may pass over many chunks.
  induction total : decoder.walk.unread.length using Nat.strongRecOn generalizing decoder with
  | ind size ih =>
    have step := next_of_alive alive
    rcases answer : decoder.walk.next with ⟨_ | fault | chunk, walk⟩
    · rw [answer] at step
      rw [trail_of_next_none step, Walk.trail_of_next_none answer]
      rfl
    · rw [answer] at step
      rw [trail_of_next_error step, Walk.trail_of_next_error answer]
      rfl
    · have shorter : walk.unread.length < size := total ▸ Walk.unread_lt_of_next answer
      rw [Walk.trail_of_next_ok answer]
      simp only [Trail.cons]
      rw [transcript_cons]
      simp only [answer] at step
      cases outcome : decoder.progress.accept decoder.limits chunk with
      | error fault =>
        simp only [outcome] at step
        rw [trail_of_next_error step]
      | ok pair =>
        obtain ⟨said, progress⟩ := pair
        have alive' : ({ decoder with walk, progress } : Decoder).failed = false := alive
        have later := ih _ shorter alive' rfl
        simp only [outcome] at step
        -- A chunk that says nothing is passed over inside one answer.
        cases said with
        | none => rw [trail_congr step, later]; rfl
        | some event => rw [trail_of_next_ok step, later]; rfl

theorem leaves : Leaves next trail where
  ended := by
    intro decoder after answer
    exact ⟨trail_of_next_none answer, trail_of_next_none (next_of_next_none answer)⟩
  failed := by
    intro decoder after fault answer
    have finished := next_of_failed (failed_of_next_error answer)
    exact ⟨trail_of_next_error answer, trail_of_next_none finished⟩
  read := trail_of_next_ok

theorem next_advance (decoder : Decoder) (calls : Nat) :
    (decoder.advance calls).next.1 = decoder.trail.answers[calls]? :=
  leaves.answer calls decoder

/-- Folding a decoder is folding its events and then looking at how it ended. -/
theorem fold_eq {α : Type} (step : α → Event → α) (decoder : Decoder) (state : α) :
    decoder.fold step state = decoder.trail.conclude (decoder.trail.items.foldl step state) := by
  fun_induction fold step decoder state with
  | case1 decoder state _ ended =>
    rw [trail_of_next_none ended]
    rfl
  | case2 decoder state fault _ failed =>
    rw [trail_of_next_error failed]
    rfl
  | case3 decoder state event after read ih =>
    rw [trail_of_next_ok read, ih]
    rfl

end Decoder

/-- The decoder of a message leaves the transcript of the chunks in the container's body, read up to
the bound on chunks, from no configuration and no calls on. It answers with the events of the
transcript, then with its fault if it has one, and then with nothing. Whatever the message, a call
stands under the configuration announced last before it, a result behind some configuration, and
there are no more calls than may be. -/
theorem decoder_answers_transcript (limits : Limits) (buffer : Bytes) (container : Container)
    (accepted : Container.read buffer = .ok container) :
    ∃ decoder, Decoder.ofMessage limits buffer = .ok decoder ∧
      let chunks := (Walk.start container.body limits.maxChunks).trail
      let run := transcript limits none 0 chunks.items chunks.fault
      decoder.trail = run ∧
      (∀ calls, (decoder.advance calls).next.1 = run.answers[calls]?) ∧
      (∀ before call behind, run.items = before ++ .call call :: behind →
        inEffect none before = some call.config ∧ .configured call.config ∈ before) ∧
      (∀ before value errno behind,
        run.items = before ++ .response (.result value errno) :: behind →
        ∃ config, .configured config ∈ before) ∧
      (run.items.filterMap Event.call?).length ≤ limits.maxCalls.toNat := by
  have opened : Decoder.ofMessage limits buffer = .ok (Decoder.start limits container.body) := by
    rw [Decoder.ofMessage, accepted]
    rfl
  have run : (Decoder.start limits container.body).trail = _ := Decoder.trail_eq_transcript rfl
  -- Nothing is in effect at the start, so whatever is in effect later was announced.
  have announced {events : List Event} {config : Configuration}
      (known : inEffect none events = some config) : .configured config ∈ events :=
    (announced_of_inEffect known).resolve_left (Option.some_ne_none config).symm
  refine ⟨_, opened, run, ?_, ?_, ?_, ?_⟩
  · intro calls
    rw [Decoder.next_advance, run]
    rfl
  · intro before call behind split
    have stands : inEffect none before = some call.config :=
      stands_of_transcript Progress.start split
    exact ⟨stands, announced stands⟩
  · intro before value errno behind split
    obtain ⟨config, known⟩ : ∃ config, inEffect none before = some config :=
      stands_of_transcript Progress.start split
    exact ⟨config, announced known⟩
  · have bound := length_calls_le Progress.start
      (Walk.start container.body limits.maxChunks).trail.items
      (Walk.start container.body limits.maxChunks).trail.fault (Nat.zero_le limits.maxCalls.toNat)
    rwa [Progress.start, Nat.zero_add] at bound

/-- An error, a configuration, a result, a call and one call too many. -/
def crowdedBody : Bytes :=
  Riff.WireFrame.concat [
    ⟨⟨.erro, [3, 0, 0, 0]⟩, [], by decide, by decide⟩,
    ⟨⟨.cnfg, [2, 4, 1, 0, 9]⟩, [0xFF], by decide, by decide⟩,
    ⟨⟨.data, []⟩, [], by decide, by decide⟩,
    ⟨⟨.retn, [0xFF, 0xFE, 0, 1]⟩, [], by decide, by decide⟩,
    ⟨⟨.call, [0, 5, 7, 7]⟩, [], by decide, by decide⟩,
    ⟨⟨.call, []⟩, [], by decide, by decide⟩]

def crowdedConfig : Configuration := ⟨.two, .four, .big⟩

/-- What the crowded body says under a bound of one call. -/
def crowdedEvents : List Event :=
  [.response (.error 3), .configured crowdedConfig, .response (.result (-2) 1),
    .call ⟨crowdedConfig, .bare 5⟩]

theorem decoder_answers_crowded :
    Container.read (Container.wrap crowdedBody) = .ok ⟨70, crowdedBody⟩ ∧
    ∃ decoder, Decoder.ofMessage ⟨6, 1, 0⟩ (Container.wrap crowdedBody) = .ok decoder ∧
      decoder.trail = ⟨crowdedEvents, some (.limitExceeded .calls 1)⟩ ∧
      (decoder.advance 4).next.1 = some (.error (.limitExceeded .calls 1)) ∧
      (decoder.advance 5).next.1 = none ∧
      inEffect none (crowdedEvents.take 3) = some crowdedConfig ∧
      ∃ config, .configured config ∈ crowdedEvents.take 2 := by
  have accepted : Container.read (Container.wrap crowdedBody) = .ok ⟨70, crowdedBody⟩ :=
    Container.read_wrap [] (by decide)
  have computed : transcript ⟨6, 1, 0⟩ none 0 (Walk.start crowdedBody 6).trail.items
      (Walk.start crowdedBody 6).trail.fault =
        ⟨crowdedEvents, some (.limitExceeded .calls 1)⟩ := by decide +kernel
  obtain ⟨decoder, opened, run, answers, calls, results, -⟩ :=
    decoder_answers_transcript ⟨6, 1, 0⟩ _ _ accepted
  have items := congrArg Trail.items computed
  refine ⟨accepted, decoder, opened, run.trans computed, ?_, ?_, ?_, ?_⟩
  · rw [answers, computed]
    rfl
  · rw [answers, computed]
    rfl
  · exact (calls (crowdedEvents.take 3) ⟨crowdedConfig, .bare 5⟩ [] items).1
  · exact results (crowdedEvents.take 2) (-2) 1 [.call ⟨crowdedConfig, .bare 5⟩] items

end Semihosting.Message
