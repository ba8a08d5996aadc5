import Semihosting.Proofs.Message.Run

/-!
# Runs under tighter limits

Limits only ever cut a run short. Each place that judges a limit refuses with a fault that names it
or goes on as it would under wider limits, and this carries over from single chunks to calls and to
whole runs. Main result: a run that is not ended by a limit is the same under wider limits, and one
that is has yielded the first events of the wider run (`limits_only_cut_short`).
-/
namespace Semihosting

open Riff (Chunk Container Walk)

/-- No limit is above its counterpart. -/
structure Limits.AtMost (tight loose : Limits) : Prop where
  maxChunks : tight.maxChunks ≤ loose.maxChunks
  maxCalls : tight.maxCalls ≤ loose.maxCalls
  maxParameters : tight.maxParameters ≤ loose.maxParameters

theorem Limits.atMost_unbounded (limits : Limits) : limits.AtMost .unbounded where
  maxChunks := by
    rw [UInt32.le_iff_toNat_le]
    exact Nat.le_of_lt_succ limits.maxChunks.toNat_lt
  maxCalls := by
    rw [UInt64.le_iff_toNat_le]
    exact Nat.le_of_lt_succ limits.maxCalls.toNat_lt
  maxParameters := by
    rw [UInt64.le_iff_toNat_le]
    exact Nat.le_of_lt_succ limits.maxParameters.toNat_lt

variable {α β : Type}

/-! ### Single outcomes -/

/-- The outcome under tighter limits is the same unless a limit was reached. -/
inductive Curbed : Except Fault α → Except Fault α → Prop
  | same (outcome) : Curbed outcome outcome
  | limit (bound max outcome) : Curbed (.error (.limitExceeded bound max)) outcome

/-- Curbed steps make up a curbed whole: a limit that is reached stops it at once. -/
theorem Curbed.bind {tight loose : Except Fault α} {next other : α → Except Fault β}
    (curbed : Curbed tight loose) (nexts : ∀ value, Curbed (next value) (other value)) :
    Curbed (tight.bind next) (loose.bind other) := by
  cases curbed with
  | same =>
    cases tight with
    | error fault => exact .same _
    | ok value => exact nexts value
  | limit bound max outcome => exact .limit bound max _

theorem Curbed.eq_or_limit {tight loose : Except Fault α} (curbed : Curbed tight loose) :
    tight = loose ∨ ∃ bound max, tight = .error (.limitExceeded bound max) := by
  cases curbed with
  | same => exact Or.inl rfl
  | limit bound max outcome => exact Or.inr ⟨bound, max, rfl⟩

theorem Curbed.map {tight loose : Except Fault α} (curbed : Curbed tight loose)
    (change : α → β) : Curbed (tight.map change) (loose.map change) := by
  cases curbed with
  | same => exact .same _
  | limit bound max outcome => exact .limit bound max _

/-! ### Trails -/

namespace Trail

/-- A trail that goes along with another one up to its own end. If it ends earlier, it ends with a
limit. -/
inductive Cut : Trail α → Trail α → Prop
  | limit (bound max long) : Cut (broken (.limitExceeded bound max)) long
  | ended (fault) : Cut ⟨[], fault⟩ ⟨[], fault⟩
  | cons (item) {short long} : Cut short long → Cut (short.cons item) (long.cons item)

/-- A trail that is cut short is whole, or is a front that ends at a limit. -/
theorem Cut.eq_or_isPrefix {short long : Trail α} (cut : short.Cut long) :
    long = short ∨
      (∃ bound max, short.fault = some (.limitExceeded bound max)) ∧
        short.items <+: long.items := by
  induction cut with
  | limit bound max long => exact Or.inr ⟨⟨bound, max, rfl⟩, List.nil_prefix⟩
  | ended fault => exact Or.inl rfl
  | cons item _ ih =>
    rcases ih with same | ⟨limit, front⟩
    · exact Or.inl (congrArg (Trail.cons item) same)
    · exact Or.inr ⟨limit, List.cons_prefix_cons.mpr ⟨rfl, front⟩⟩

/-- What comes of the items of a trail that is cut short is curbed. -/
theorem Cut.conclude {short long : Trail α} (cut : short.Cut long) (yield : List α → β) :
    Curbed (short.conclude (yield short.items)) (long.conclude (yield long.items)) := by
  rcases cut.eq_or_isPrefix with rfl | ⟨⟨bound, max, limit⟩, -⟩
  · exact .same _
  · rw [Trail.conclude, limit]
    exact .limit bound max _

/-- Folding a trail that is cut short, with steps that may be curbed, is curbed. -/
theorem Cut.foldlM {step other : β → α → Except Fault β} {short long : Trail α}
    (cut : short.Cut long) (steps : ∀ state item, Curbed (step state item) (other state item))
    (state : β) :
    Curbed ((short.items.foldlM step state).bind short.conclude)
      ((long.items.foldlM other state).bind long.conclude) := by
  -- The induction is on how the trails go along, from any state that they have in common.
  induction cut generalizing state with
  | limit bound max long => exact .limit bound max _
  | ended fault => exact .same _
  | cons item _ ih =>
    simp only [Trail.cons, List.foldlM_cons]
    have first := steps state item
    generalize step state item = tight, other state item = loose at first
    -- A step that is not stopped by a limit leaves both folds in one state.
    cases first with
    | limit bound max outcome => exact .limit bound max _
    | same =>
      cases tight with
      | error fault => exact .same _
      | ok state => exact ih state

end Trail

/-! ### Walks and calls -/

namespace Riff.Walk

def widen (walk : Walk) (maxChunks : UInt32) : Walk := { walk with maxChunks }

theorem maxChunks_next (walk : Walk) : walk.next.2.maxChunks = walk.maxChunks := by
  unfold next
  split
  · rfl
  · split
    · rfl
    · split <;> rfl

/-- A bound on chunks changes nothing in an answer except by being reached. -/
theorem next_widen {walk : Walk} {maxChunks : UInt32} (le : walk.maxChunks ≤ maxChunks) :
    (∃ max, walk.next.1 = some (.error (.limitExceeded .chunks max))) ∨
      (walk.widen maxChunks).next = (walk.next.1, walk.next.2.widen maxChunks) := by
  by_cases spent : walk.failed = true ∨ walk.unread = []
  · right
    have spent' : (walk.widen maxChunks).failed = true ∨ (walk.widen maxChunks).unread = [] := spent
    rw [next, if_pos spent', next, if_pos spent]
  · by_cases full : walk.maxChunks.toNat ≤ walk.seen
    · left
      exact ⟨walk.maxChunks.toNat, by rw [next, if_neg spent, if_pos full]⟩
    · right
      have spent' : ¬((walk.widen maxChunks).failed = true ∨ (walk.widen maxChunks).unread = []) :=
        spent
      have room : ¬(walk.widen maxChunks).maxChunks.toNat ≤ (walk.widen maxChunks).seen := by
        have wider := UInt32.le_iff_toNat_le.mp le
        simp only [widen]
        omega
      rw [next, if_neg spent', if_neg room, next, if_neg spent, if_neg full]
      -- Both look at the same bytes at the same offset.
      simp only [widen]
      cases Chunk.split walk.cursor walk.unread <;> rfl

/-- A walk with a tighter bound leaves the same trail, cut short where the bound is reached. -/
theorem trail_cut {walk : Walk} {maxChunks : UInt32} (le : walk.maxChunks ≤ maxChunks) :
    walk.trail.Cut (walk.widen maxChunks).trail := by
  induction total : walk.unread.length using Nat.strongRecOn generalizing walk with
  | ind size ih =>
    rcases answer : walk.next with ⟨_ | fault | chunk, after⟩
    all_goals
      have wider := next_widen le
      rw [answer] at wider
    · obtain ⟨max, limit⟩ | wider := wider
      · cases limit
      · rw [trail_of_next_none answer, trail_of_next_none wider]
        exact .ended none
    · rw [trail_of_next_error answer]
      obtain ⟨max, limit⟩ | wider := wider
      · cases limit
        exact .limit .chunks max _
      · rw [trail_of_next_error wider]
        exact .ended (some fault)
    · obtain ⟨max, limit⟩ | wider := wider
      · cases limit
      · -- Both walks go on behind the chunk, still with the same bytes to read.
        have kept := maxChunks_next walk
        rw [answer] at kept
        have bound : after.maxChunks ≤ maxChunks := kept ▸ le
        rw [trail_of_next_ok answer, trail_of_next_ok wider]
        exact (ih _ (total ▸ unread_lt_of_next answer) bound rfl).cons chunk

end Riff.Walk

namespace Request

variable {tight loose : Limits} (atMost : tight.AtMost loose) (config : Configuration)
include atMost

theorem absorb_curbed (request : Request) (chunk : Chunk) :
    Curbed (request.absorb config tight chunk) (request.absorb config loose chunk) := by
  unfold absorb
  split
  · unfold addParameters
    split
    -- A ragged list is refused before its slots are counted.
    · exact .same _
    · split
      next excess => exact .limit .parameters _ _
      next room =>
        have wider := UInt64.le_iff_toNat_le.mp atMost.maxParameters
        rw [if_neg (by omega)]
        exact .same _
  · exact .same _

theorem decode_curbed (payload : Bytes) :
    Curbed (decode config tight payload) (decode config loose payload) := by
  unfold decode
  split
  · exact .same _
  · apply Curbed.bind (.same _)
    intro opcode
    rw [Walk.fold_eq, Walk.fold_eq]
    exact (Walk.trail_cut atMost.maxChunks).foldlM (absorb_curbed atMost config) (bare opcode)

end Request

/-! ### Messages -/

namespace Message

section

variable {tight loose : Limits} (atMost : tight.AtMost loose)
include atMost

/-- Tighter limits take a chunk alike, or refuse it for the limit that it reaches. -/
theorem Progress.accept_curbed (progress : Progress) (chunk : Chunk) :
    Curbed (progress.accept tight chunk) (progress.accept loose chunk) := by
  -- Only a call is subject to limits of its own.
  unfold accept
  split
  · exact .same _
  · split
    · unfold acceptCall
      split
      next excess => exact .limit .calls _ _
      next room =>
        have wider := UInt64.le_iff_toNat_le.mp atMost.maxCalls
        rw [if_neg (by omega)]
        cases progress.config with
        | none => exact .same _
        | some config => exact (Request.decode_curbed atMost config chunk.payload).map _
    · exact .same _

theorem transcript_cut {short long : Trail Chunk} (cut : short.Cut long) (progress : Progress) :
    (transcript tight progress.config progress.calls short.items short.fault).Cut
      (transcript loose progress.config progress.calls long.items long.fault) := by
  induction cut generalizing progress with
  | limit bound max long => exact .limit bound max _
  | ended fault => exact .ended fault
  | cons chunk _ ih =>
    simp only [Trail.cons]
    rw [transcript_cons, transcript_cons]
    have read := Progress.accept_curbed atMost progress chunk
    generalize progress.accept tight chunk = first, progress.accept loose chunk = second at read
    cases read with
    | limit bound max outcome => exact .limit bound max _
    | same =>
      cases first with
      | error fault => exact .ended (some fault)
      | ok pair =>
        obtain ⟨said, after⟩ := pair
        cases said with
        | none => exact ih after
        | some event => exact (ih after).cons event

/-- Under wider limits a container is refused for the same fault or its run goes as far. -/
theorem run_cases (buffer : Bytes) :
    (∃ refusal, run tight buffer = .error refusal ∧ run loose buffer = .error refusal) ∨
      ∃ short long, run tight buffer = .ok short ∧ run loose buffer = .ok long ∧
        short.Cut long := by
  rw [run_eq, run_eq]
  cases Container.read buffer with
  | error refusal => exact Or.inl ⟨refusal, rfl, rfl⟩
  | ok container =>
    right
    exact ⟨_, _, rfl, rfl, transcript_cut atMost (Walk.trail_cut atMost.maxChunks) .start⟩

theorem yielded_curbed (buffer : Bytes) (yield : List Event → α) :
    Curbed (yielded tight buffer yield) (yielded loose buffer yield) := by
  rw [yielded, yielded]
  rcases run_cases atMost buffer with ⟨refusal, tighter, wider⟩ | ⟨short, long, tighter, wider, cut⟩
  · rw [tighter, wider]
    exact .same _
  · rw [tighter, wider]
    exact cut.conclude yield

end

/-- Whatever the buffer, limits only cut its run short. The container is refused for the same fault
under wider limits. A run that no limit ends is the same under wider limits, with its final fault if
it has one, and the events of a run that a limit ends are the first events of the wider run. So the
calls and the reply are what they are without limits, or a limit is reported in their place. -/
theorem limits_only_cut_short {tight loose : Limits} (atMost : tight.AtMost loose)
    (buffer : Bytes) :
    (∀ refusal, run tight buffer = .error refusal → run loose buffer = .error refusal) ∧
    (∀ short, run tight buffer = .ok short → ∃ long, run loose buffer = .ok long ∧
      ((∀ bound max, short.fault ≠ some (.limitExceeded bound max)) → long = short) ∧
      ∀ bound max, short.fault = some (.limitExceeded bound max) →
        short.items <+: long.items) ∧
    (calls tight buffer = calls .unbounded buffer ∨
      ∃ bound max, calls tight buffer = .error (.limitExceeded bound max)) ∧
    (reply tight buffer = reply .unbounded buffer ∨
      ∃ bound max, reply tight buffer = .error (.limitExceeded bound max)) := by
  rw [calls_eq_yielded, calls_eq_yielded, reply_eq_yielded, reply_eq_yielded]
  have curbed {α : Type} (yield : List Event → α) :=
    (yielded_curbed tight.atMost_unbounded buffer yield).eq_or_limit
  -- Calls and reply are compared with an unbounded run; only the run itself needs both limits.
  refine ⟨?_, ?_, curbed callsOf, curbed replyOf⟩
  · intro refusal refused
    rcases run_cases atMost buffer with ⟨other, refused', wider⟩ | ⟨short, long, read, -, -⟩
    · rw [refused] at refused'
      cases refused'
      exact wider
    · rw [refused] at read
      cases read
  · intro short read
    rcases run_cases atMost buffer with ⟨other, refused, -⟩ | ⟨again, long, read', wider, cut⟩
    · rw [read] at refused
      cases refused
    · rw [read] at read'
      cases read'
      refine ⟨long, wider, ?_, ?_⟩
      · intro free
        rcases cut.eq_or_isPrefix with same | ⟨⟨bound, max, limit⟩, -⟩
        · exact same
        · exact absurd limit (free bound max)
      · intro bound max limit
        rcases cut.eq_or_isPrefix with rfl | ⟨-, front⟩
        · exact List.prefix_refl _
        · exact front

/-- One call is too many for the first limits; under the second ones the next fault ends the run. -/
theorem crowded_cut_short :
    (Limits.mk 6 1 0).AtMost .standard ∧
    run ⟨6, 1, 0⟩ (Container.wrap crowdedBody) =
      .ok ⟨crowdedEvents, some (.limitExceeded .calls 1)⟩ ∧
    (∃ long, run .standard (Container.wrap crowdedBody) = .ok long ∧
      crowdedEvents <+: long.items) ∧
    (Limits.mk 6 2 0).AtMost .standard ∧
    run ⟨6, 2, 0⟩ (Container.wrap crowdedBody) =
      .ok ⟨crowdedEvents, some (.shortPayload .call 4 0)⟩ ∧
    run .standard (Container.wrap crowdedBody) =
      .ok ⟨crowdedEvents, some (.shortPayload .call 4 0)⟩ := by
  have first : (Limits.mk 6 1 0).AtMost .standard := ⟨by decide, by decide, by decide⟩
  have second : (Limits.mk 6 2 0).AtMost .standard := ⟨by decide, by decide, by decide⟩
  have limited : run ⟨6, 1, 0⟩ (Container.wrap crowdedBody) =
      .ok ⟨crowdedEvents, some (.limitExceeded .calls 1)⟩ := by decide +kernel
  have broken : run ⟨6, 2, 0⟩ (Container.wrap crowdedBody) =
      .ok ⟨crowdedEvents, some (.shortPayload .call 4 0)⟩ := by decide +kernel
  obtain ⟨-, cut, -⟩ := limits_only_cut_short first (Container.wrap crowdedBody)
  obtain ⟨-, kept, -⟩ := limits_only_cut_short second (Container.wrap crowdedBody)
  obtain ⟨long, wider, -, front⟩ := cut _ limited
  obtain ⟨same, wider', free, -⟩ := kept _ broken
  refine ⟨first, limited, ⟨long, wider, front .calls 1 rfl⟩, second, broken, ?_⟩
  rw [wider', free]
  intro bound max limit
  cases limit

end Message

end Semihosting
