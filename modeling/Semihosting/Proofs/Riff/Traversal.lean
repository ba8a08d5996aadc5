import Semihosting.Proofs.Answers
import Semihosting.Proofs.Outcomes
import Semihosting.Proofs.Riff.Grammar
import Semihosting.Riff.Walk

/-!
# What a walk reads

A walk reads the frames of its region one after another until it comes to the end, to the bound on
chunks, or to a place where no frame stands. Main statements: a single answer is a frame or one of
these three (`Walk.next_of_alive`), and the trail of a walk is the chunks of frames at the front of
the region and the reason for which the walk ends behind them (`Walk.exists_frames`).
-/
namespace Semihosting.Riff

open WireFrame

namespace Walk

def advance (walk : Walk) (calls : Nat) : Walk := (fun walk => walk.next.2)^[calls] walk

/-- What holds of a walk until it fails: all offsets fit in 32 bits and no more chunks were read
than may be. -/
structure Ready (walk : Walk) : Prop where
  alive : walk.failed = false
  inBounds : walk.cursor + walk.unread.length < offsetSpace
  counted : walk.seen ≤ walk.maxChunks.toNat

/-- The walk behind some frames, with the rest unread. -/
def past (walk : Walk) (frames : List WireFrame) (rest : Bytes) : Walk :=
  { walk with
    unread := rest
    cursor := walk.cursor + (concat frames).length
    seen := walk.seen + frames.length }

/-- The fault, if there is one, with which a walk ends where it stands. -/
inductive Ends (walk : Walk) : Option Fault → Prop
  | done : walk.unread = [] → Ends walk none
  | full : walk.unread ≠ [] → walk.maxChunks.toNat ≤ walk.seen →
      Ends walk (some (.limitExceeded .chunks walk.maxChunks.toNat))
  | broken {fault} : walk.unread ≠ [] → walk.seen < walk.maxChunks.toNat →
      Chunk.split walk.cursor walk.unread = .error fault → Ends walk (some fault)

@[simp] theorem unread_past (walk : Walk) (frames : List WireFrame) (rest : Bytes) :
    (walk.past frames rest).unread = rest := rfl

@[simp] theorem cursor_past (walk : Walk) (frames : List WireFrame) (rest : Bytes) :
    (walk.past frames rest).cursor = walk.cursor + (concat frames).length := rfl

@[simp] theorem seen_past (walk : Walk) (frames : List WireFrame) (rest : Bytes) :
    (walk.past frames rest).seen = walk.seen + frames.length := rfl

@[simp] theorem maxChunks_past (walk : Walk) (frames : List WireFrame) (rest : Bytes) :
    (walk.past frames rest).maxChunks = walk.maxChunks := rfl

theorem past_nil (walk : Walk) : walk.past [] walk.unread = walk := rfl

theorem past_past (walk : Walk) (front back : List WireFrame) (middle rest : Bytes) :
    (walk.past front middle).past back rest = walk.past (front ++ back) rest := by
  simp only [past, concat_append, List.length_append, Nat.add_assoc]

theorem ready_start {region : Bytes} {maxChunks : UInt32} (short : region.length < offsetSpace) :
    (start region maxChunks).Ready where
  alive := rfl
  inBounds := by simpa only [start, Nat.zero_add] using short
  counted := Nat.zero_le _

theorem ready_past {walk : Walk} {frames : List WireFrame} {rest : Bytes} (ready : walk.Ready)
    (front : walk.unread = concat frames ++ rest)
    (room : walk.seen + frames.length ≤ walk.maxChunks.toNat) : (walk.past frames rest).Ready where
  alive := ready.alive
  inBounds := by
    have bound := ready.inBounds
    rw [front, List.length_append] at bound
    rw [cursor_past, unread_past]
    omega
  counted := room

/-! ### Single answers -/

theorem next_of_unread_eq_nil {walk : Walk} (used : walk.unread = []) :
    walk.next = (none, walk) := by
  rw [next, if_pos (Or.inr used)]

theorem next_of_failed {walk : Walk} (failed : walk.failed = true) : walk.next = (none, walk) := by
  rw [next, if_pos (Or.inl failed)]

private theorem not_over {walk : Walk} (alive : walk.failed = false) (more : walk.unread ≠ []) :
    ¬(walk.failed = true ∨ walk.unread = []) := by
  simp [alive, more]

/-- With a frame in front of it and room in its count, a walk takes the frame. -/
theorem next_frame {walk : Walk} {frame : WireFrame} {rest : Bytes} (ready : walk.Ready)
    (front : walk.unread = frame.bytes ++ rest) (room : walk.seen < walk.maxChunks.toNat) :
    walk.next = (some (.ok (frame.chunkAt walk.cursor)), walk.past [frame] rest) := by
  have more : walk.unread ≠ [] := by
    rw [front]
    exact (nil_ne_bytes_append frame rest).symm
  have taken : Chunk.split walk.cursor walk.unread = .ok (frame.chunkAt walk.cursor, rest) :=
    Chunk.split_eq_ok_iff.mpr ⟨ready.inBounds, frame, front, rfl⟩
  rw [next, if_neg (not_over ready.alive more), if_neg (Nat.not_le_of_lt room), taken]
  simp only [past, stop_chunkAt, concat_cons, concat_nil, List.append_nil, List.length_singleton]

/-- Where a walk ends it answers with the fault that ends it, if there is one, and is closed by
that. -/
theorem next_of_ends {walk : Walk} {fault : Option Fault} (alive : walk.failed = false)
    (ends : walk.Ends fault) :
    walk.next = (fault.map .error, { walk with failed := fault.isSome }) := by
  cases ends with
  | done used =>
    have same : { walk with failed := false } = walk := by rw [← alive]
    rw [next_of_unread_eq_nil used]
    exact congrArg (Prod.mk none) same.symm
  | full more full =>
    rw [next, if_neg (not_over alive more), if_pos full]
    rfl
  | broken more room failed =>
    rw [next, if_neg (not_over alive more), if_neg (Nat.not_le_of_lt room), failed]
    rfl

/-- A walk that has not failed either ends where it stands or reads the frame at the front of its
unread part, and then stands behind that frame. -/
theorem next_of_alive {walk : Walk} (alive : walk.failed = false) :
    (∃ fault, walk.Ends fault) ∨ ∃ (frame : WireFrame) (rest : Bytes),
      walk.unread = frame.bytes ++ rest ∧ walk.seen < walk.maxChunks.toNat ∧
      walk.next = (some (.ok (frame.chunkAt walk.cursor)), walk.past [frame] rest) := by
  by_cases used : walk.unread = []
  · exact Or.inl ⟨none, .done used⟩
  · by_cases full : walk.maxChunks.toNat ≤ walk.seen
    · exact Or.inl ⟨_, .full used full⟩
    · have room := Nat.lt_of_not_le full
      cases taken : Chunk.split walk.cursor walk.unread with
      | error fault => exact Or.inl ⟨some fault, .broken used room taken⟩
      | ok pair =>
        obtain ⟨chunk, rest⟩ := pair
        obtain ⟨_, frame, front, rfl⟩ := Chunk.split_eq_ok_iff.mp taken
        refine Or.inr ⟨frame, rest, front, room, ?_⟩
        rw [next, if_neg (not_over alive used), if_neg full, taken]
        simp [past]

theorem Ends.eq_none_iff {walk : Walk} {fault : Option Fault} (ends : walk.Ends fault) :
    fault = none ↔ walk.unread = [] := by
  cases ends with
  | done used => exact iff_of_true rfl used
  | full more _ => exact iff_of_false (Option.some_ne_none _) more
  | broken more _ _ => exact iff_of_false (Option.some_ne_none _) more

/-- Whatever a walk answers, it stays where it is, or stays there for good with a fault, or stands
behind the frame at the front of its unread part. -/
theorem next_cases (walk : Walk) :
    walk.next = (none, walk) ∨
    (∃ fault, walk.next = (some (.error fault), { walk with failed := true })) ∨
    ∃ (frame : WireFrame) (rest : Bytes), walk.unread = frame.bytes ++ rest ∧
      walk.seen < walk.maxChunks.toNat ∧
      walk.next = (some (.ok (frame.chunkAt walk.cursor)), walk.past [frame] rest) := by
  cases alive : walk.failed with
  | true => exact Or.inl (next_of_failed alive)
  | false =>
    rcases next_of_alive alive with ⟨_ | fault, ends⟩ | read
    · exact Or.inl (next_of_unread_eq_nil (ends.eq_none_iff.mp rfl))
    · exact Or.inr (Or.inl ⟨fault, next_of_ends alive ends⟩)
    · exact Or.inr (Or.inr read)

theorem eq_of_next_none {walk after : Walk} (ended : walk.next = (none, after)) :
    after = walk := by
  rcases next_cases walk with answer | ⟨_, answer⟩ | ⟨_, _, -, -, answer⟩ <;>
    rw [answer] at ended <;> cases ended
  rfl

theorem eq_of_next_error {walk after : Walk} {fault : Fault}
    (failed : walk.next = (some (.error fault), after)) : after = { walk with failed := true } := by
  rcases next_cases walk with answer | ⟨_, answer⟩ | ⟨_, _, -, -, answer⟩ <;>
    rw [answer] at failed <;> cases failed
  rfl

theorem eq_past_of_next {walk after : Walk} {chunk : Chunk}
    (read : walk.next = (some (.ok chunk), after)) :
    ∃ (frame : WireFrame) (rest : Bytes), walk.unread = frame.bytes ++ rest ∧
      walk.seen < walk.maxChunks.toNat ∧ chunk = frame.chunkAt walk.cursor ∧
      after = walk.past [frame] rest := by
  rcases next_cases walk with answer | ⟨_, answer⟩ | ⟨frame, rest, front, room, answer⟩ <;>
    rw [answer] at read <;> cases read
  exact ⟨frame, rest, front, room, rfl, rfl⟩

/-- Where the bytes stop a walk, no frame stands. -/
theorem stuck_of_ends {walk : Walk} {fault : Option Fault} (ready : walk.Ready)
    (ends : walk.Ends fault) (room : walk.seen < walk.maxChunks.toNat) (frame : WireFrame)
    (behind : Bytes) : walk.unread ≠ frame.bytes ++ behind := by
  intro front
  -- A frame at the front would have been read.
  have read := next_frame ready front room
  rw [next_of_ends ready.alive ends] at read
  cases fault <;> cases (Prod.mk.inj read).1

/-! ### Runs -/

theorem trail_of_ends {walk : Walk} {fault : Option Fault} (alive : walk.failed = false)
    (ends : walk.Ends fault) : walk.trail = ⟨[], fault⟩ := by
  have answer := next_of_ends alive ends
  cases fault with
  | none => exact trail_of_next_none answer
  | some fault => exact trail_of_next_error answer

private theorem next_front {walk : Walk} {frame : WireFrame} {frames : List WireFrame}
    {rest : Bytes} (ready : walk.Ready)
    (front : walk.unread = concat (frame :: frames) ++ rest)
    (room : walk.seen + (frame :: frames).length ≤ walk.maxChunks.toNat) :
    walk.next =
        (some (.ok (frame.chunkAt walk.cursor)), walk.past [frame] (concat frames ++ rest)) ∧
      (walk.past [frame] (concat frames ++ rest)).Ready ∧
      walk.seen + [frame].length + frames.length ≤ walk.maxChunks.toNat := by
  rw [concat_cons, List.append_assoc] at front
  rw [List.length_cons] at room
  rw [List.length_singleton]
  refine ⟨next_frame ready front (by omega), ready_past ready ?_ ?_, by omega⟩
  · rw [front, concat_cons, concat_nil, List.append_nil]
  · rw [List.length_singleton]
    omega

/-- Frames at the front of the unread part are the first chunks that are read. -/
theorem trail_past {walk : Walk} {frames : List WireFrame} {rest : Bytes} (ready : walk.Ready)
    (front : walk.unread = concat frames ++ rest)
    (room : walk.seen + frames.length ≤ walk.maxChunks.toNat) :
    walk.trail = ⟨chunksFrom walk.cursor frames ++ (walk.past frames rest).trail.items,
      (walk.past frames rest).trail.fault⟩ := by
  -- Each frame is one answer, behind which the walk stands ready before the others.
  induction frames generalizing walk with
  | nil =>
    rw [concat_nil, List.nil_append] at front
    subst front
    rw [past_nil]
    rfl
  | cons frame frames ih =>
    obtain ⟨read, ready', room'⟩ := next_front ready front room
    rw [trail_of_next_ok read, ih ready' rfl room', past_past, List.singleton_append, cursor_past,
      concat_cons, concat_nil, List.append_nil]
    rfl

theorem trail_start_concat {frames : List WireFrame} {maxChunks : UInt32}
    (short : (concat frames).length < offsetSpace) (room : frames.length ≤ maxChunks.toNat) :
    (start (concat frames) maxChunks).trail = ⟨chunksFrom 0 frames, none⟩ := by
  have front : (start (concat frames) maxChunks).unread = concat frames ++ [] :=
    (List.append_nil _).symm
  have run := trail_past (ready_start short) front (by simpa only [start, Nat.zero_add] using room)
  have finished : ((start (concat frames) maxChunks).past frames []).trail = .done :=
    trail_of_next_none (next_of_unread_eq_nil rfl)
  rw [run, finished]
  exact congrArg (fun items => (⟨items, none⟩ : Trail Chunk)) (List.append_nil _)

theorem advance_succ (walk : Walk) (calls : Nat) :
    walk.advance (calls + 1) = walk.next.2.advance calls :=
  Function.iterate_succ_apply _ calls walk

theorem advance_past {walk : Walk} {frames : List WireFrame} {rest : Bytes} (ready : walk.Ready)
    (front : walk.unread = concat frames ++ rest)
    (room : walk.seen + frames.length ≤ walk.maxChunks.toNat) :
    walk.advance frames.length = walk.past frames rest := by
  induction frames generalizing walk with
  | nil =>
    rw [concat_nil, List.nil_append] at front
    subst front
    rfl
  | cons frame frames ih =>
    obtain ⟨read, ready', room'⟩ := next_front ready front room
    rw [List.length_cons, advance_succ, read, ih ready' rfl room', past_past,
      List.singleton_append]

/-- A walk that has come to its end stays as it is. -/
theorem advance_of_ends {walk : Walk} {fault : Option Fault} (alive : walk.failed = false)
    (ends : walk.Ends fault) (calls : Nat) :
    walk.advance (calls + 1) = { walk with failed := fault.isSome } := by
  have still : ({ walk with failed := fault.isSome } : Walk).next =
      (none, { walk with failed := fault.isSome }) := by
    cases ends with
    | done used => exact next_of_unread_eq_nil used
    | full => exact next_of_failed rfl
    | broken => exact next_of_failed rfl
  rw [advance_succ, next_of_ends alive ends]
  exact Function.iterate_fixed (congrArg Prod.snd still) calls

/-- Every walk reads frames at the front of its unread part, then ends, and stays where it is. -/
theorem exists_frames_of_alive {walk : Walk} (alive : walk.failed = false)
    (counted : walk.seen ≤ walk.maxChunks.toNat) :
    ∃ (frames : List WireFrame) (rest : Bytes), walk.unread = concat frames ++ rest ∧
      walk.seen + frames.length ≤ walk.maxChunks.toNat ∧
      walk.trail.items = chunksFrom walk.cursor frames ∧
      (walk.past frames rest).Ends walk.trail.fault ∧
      ∀ calls, walk.advance (frames.length + calls + 1) =
        { walk.past frames rest with failed := walk.trail.fault.isSome } := by
  induction total : walk.unread.length using Nat.strongRecOn generalizing walk with
  | ind size ih =>
    rcases next_of_alive alive with ⟨fault, ends⟩ | ⟨frame, rest, front, room, read⟩
    · rw [trail_of_ends alive ends]
      refine ⟨[], walk.unread, rfl, counted, rfl, by rw [past_nil]; exact ends, ?_⟩
      intro calls
      rw [past_nil, List.length_nil, Nat.zero_add]
      exact advance_of_ends alive ends calls
    · -- Behind the frame there is less to read.
      have shorter : (walk.past [frame] rest).unread.length < size :=
        total ▸ unread_lt_of_next read
      have alive' : (walk.past [frame] rest).failed = false := alive
      have counted' : (walk.past [frame] rest).seen ≤ walk.maxChunks.toNat := room
      obtain ⟨frames, tail, split, bound, items, ends, stays⟩ :=
        ih _ shorter alive' counted' rfl
      rw [cursor_past, concat_cons, concat_nil, List.append_nil] at items
      rw [seen_past, maxChunks_past, List.length_singleton] at bound
      rw [past_past] at ends stays
      rw [trail_of_next_ok read]
      refine ⟨frame :: frames, tail, ?_, ?_, ?_, ends, ?_⟩
      · rw [front, concat_cons, List.append_assoc]
        exact congrArg _ split
      · rw [List.length_cons]
        omega
      · rw [chunksFrom_cons, ← items]
        rfl
      · intro calls
        rw [List.length_cons, Nat.add_right_comm frames.length 1 calls, advance_succ, read]
        exact stays calls

/-- A walk takes frames from the front of what is unread, until it ends. -/
theorem exists_frames {walk : Walk} (ready : walk.Ready) :
    ∃ (frames : List WireFrame) (rest : Bytes), walk.unread = concat frames ++ rest ∧
      walk.seen + frames.length ≤ walk.maxChunks.toNat ∧
      walk.trail.items = chunksFrom walk.cursor frames ∧
      (walk.past frames rest).Ends walk.trail.fault := by
  obtain ⟨frames, rest, front, room, items, ends, -⟩ :=
    exists_frames_of_alive ready.alive ready.counted
  exact ⟨frames, rest, front, room, items, ends⟩

/-- The chunks that a walk reads fit into its region and under its bound. -/
theorem extent_trail_le {region : Bytes} (maxChunks : UInt32)
    (short : region.length < offsetSpace) :
    Chunk.extent (start region maxChunks).trail.items ≤ region.length ∧
      (start region maxChunks).trail.items.length ≤ maxChunks.toNat := by
  have ready : (start region maxChunks).Ready := ready_start short
  obtain ⟨frames, rest, front, room, items, -⟩ := exists_frames ready
  have split : region = concat frames ++ rest := front
  rw [items, extent_chunksFrom, length_chunksFrom, split, List.length_append]
  exact ⟨Nat.le_add_right _ _, Nat.zero_add frames.length ▸ room⟩

theorem leaves : Leaves next trail where
  ended := by
    intro walk after answer
    have same := eq_of_next_none answer
    subst same
    exact ⟨trail_of_next_none answer, trail_of_next_none answer⟩
  failed := by
    intro walk after fault answer
    rw [eq_of_next_error answer]
    exact ⟨trail_of_next_error answer, trail_of_next_none (next_of_failed rfl)⟩
  read := trail_of_next_ok

theorem next_advance (walk : Walk) (calls : Nat) :
    (walk.advance calls).next.1 = walk.trail.answers[calls]? :=
  leaves.answer calls walk

/-- Folding a walk is folding its chunks and then looking at how it ended. -/
theorem fold_eq {α : Type} (step : α → Chunk → Except Fault α) (walk : Walk) (state : α) :
    walk.fold step state = (walk.trail.items.foldlM step state).bind walk.trail.conclude := by
  fun_induction fold step walk state with
  | case1 walk state _ ended =>
    rw [trail_of_next_none ended]
    rfl
  | case2 walk state fault _ failed =>
    rw [trail_of_next_error failed]
    rfl
  | case3 walk state chunk after read fault refused =>
    rw [trail_of_next_ok read]
    simp only [Trail.cons, List.foldlM_cons, refused]
    rfl
  | case4 walk state chunk after read state' stepped ih =>
    rw [trail_of_next_ok read, ih]
    simp only [Trail.cons, List.foldlM_cons, stepped]
    rfl

/-- A step that does not look at offsets may be taken over the frames in place of the chunks. -/
theorem foldlM_chunksFrom {α : Type} {step : α → Chunk → Except Fault α}
    {act : α → Frame → Except Fault α}
    (blind : ∀ state frame offset, step state ⟨frame.tag, offset, frame.payload⟩ = act state frame)
    (offset : Nat) (frames : List WireFrame) (state : α) :
    (chunksFrom offset frames).foldlM step state = (frames.map toFrame).foldlM act state := by
  induction frames generalizing offset state with
  | nil => rfl
  | cons frame rest ih =>
    rw [chunksFrom_cons, List.map_cons, List.foldlM_cons, List.foldlM_cons]
    simp only [chunkAt, blind, ih]

/-- Frames at the front of the unread part go to a step that does not look at offsets before what
is behind them. -/
theorem fold_past {α : Type} {step : α → Chunk → Except Fault α} {act : α → Frame → Except Fault α}
    (blind : ∀ state frame offset, step state ⟨frame.tag, offset, frame.payload⟩ = act state frame)
    {walk : Walk} {frames : List WireFrame} {rest : Bytes} (ready : walk.Ready)
    (front : walk.unread = concat frames ++ rest)
    (room : walk.seen + frames.length ≤ walk.maxChunks.toNat) (state : α) :
    walk.fold step state =
      ((frames.map toFrame).foldlM act state).bind ((walk.past frames rest).fold step) := by
  rw [fold_eq, trail_past ready front room, List.foldlM_append, foldlM_chunksFrom blind]
  cases (frames.map toFrame).foldlM act state with
  | error fault => rfl
  | ok after => exact (fold_eq step _ after).symm

/-- Where a walk ends, folding it comes to the state so far or to the fault. -/
theorem fold_of_ends {α : Type} {walk : Walk} {fault : Option Fault} (ready : walk.Ready)
    (ends : walk.Ends fault) (step : α → Chunk → Except Fault α) (state : α) :
    walk.fold step state = (Trail.mk [] fault : Trail Chunk).conclude state := by
  rw [fold_eq, trail_of_ends ready.alive ends]
  rfl

/-- A walk meets no fault if its region is a sequence of frames within the bound on chunks. -/
theorem fault_trail_eq_none_iff {region : Bytes} {maxChunks : UInt32}
    (short : region.length < offsetSpace) :
    (start region maxChunks).trail.fault = none ↔
      ∃ frames, region = concat frames ∧ frames.length ≤ maxChunks.toNat := by
  constructor
  · intro finished
    have ready : (start region maxChunks).Ready := ready_start short
    obtain ⟨frames, rest, front, counted, -, ends⟩ := exists_frames ready
    have used : rest = [] := ends.eq_none_iff.mp finished
    rw [used, List.append_nil] at front
    exact ⟨frames, front, Nat.zero_add frames.length ▸ counted⟩
  · rintro ⟨frames, rfl, room⟩
    rw [trail_start_concat short room]

/-- A walk hands the frames of its region to a step that does not look at offsets. -/
theorem fold_eq_ok_iff {α : Type} {step : α → Chunk → Except Fault α}
    {act : α → Frame → Except Fault α}
    (blind : ∀ state frame offset, step state ⟨frame.tag, offset, frame.payload⟩ = act state frame)
    {region : Bytes} {maxChunks : UInt32} {state final : α}
    (short : region.length < offsetSpace) :
    (start region maxChunks).fold step state = .ok final ↔
      ∃ frames, region = concat frames ∧ frames.length ≤ maxChunks.toNat ∧
        (frames.map toFrame).foldlM act state = .ok final := by
  rw [fold_eq]
  constructor
  · intro folded
    obtain ⟨after, handed, concluded⟩ := bind_eq_ok_iff.mp folded
    obtain ⟨finished, rfl⟩ := Trail.conclude_eq_ok_iff.mp concluded
    obtain ⟨frames, rfl, room⟩ := (fault_trail_eq_none_iff short).mp finished
    rw [trail_start_concat short room, foldlM_chunksFrom blind] at handed
    exact ⟨frames, rfl, room, handed⟩
  · rintro ⟨frames, rfl, room, handed⟩
    rw [trail_start_concat short room, foldlM_chunksFrom blind, handed]
    rfl

/-- A walk over written frames hands them to a step that does not look at offsets. -/
theorem fold_frames {α : Type} {step : α → Chunk → Except Fault α}
    {act : α → Frame → Except Fault α}
    (blind : ∀ state frame offset, step state ⟨frame.tag, offset, frame.payload⟩ = act state frame)
    {frames : List Frame} {maxChunks : UInt32} (state : α)
    (short : (frames.flatMap Frame.bytes).length < offsetSpace)
    (room : frames.length ≤ maxChunks.toNat) :
    (start (frames.flatMap Frame.bytes) maxChunks).fold step state = frames.foldlM act state := by
  -- As frames of a region they are chunks with offsets, to which the step is blind.
  obtain ⟨wires, rfl, bytes⟩ := exists_wires short
  rw [← bytes] at short ⊢
  rw [List.length_map] at room
  rw [fold_eq, trail_start_concat short room, foldlM_chunksFrom blind]
  cases (wires.map toFrame).foldlM act state <;> rfl

end Walk

end Semihosting.Riff
