import Semihosting.Proofs.Guarded.Calls

/-!
# Guarded decoders

A decoder keeps a reader of chunks, the configuration in effect and a count of calls. Main result:
whatever the bytes, the limits and the number of questions, no guarded reader traps or takes a
fallback, and each comes to what the plain one does (`no_step_traps`).
-/
namespace Semihosting.Guarded

open Riff (Chunk Container Walk offsetSpace)
open Message (Event Progress crowdedBody crowdedConfig crowdedEvents)

/-- A place in a message, with the offset of the next chunk. -/
structure Decoder where
  chunks : Reader
  config : Option Configuration
  limits : Limits
  calls : Nat
  failed : Bool
  deriving DecidableEq, Repr

namespace Decoder

def start (limits : Limits) (body : Bytes) : Decoder :=
  ⟨Reader.start body limits.maxChunks, none, limits, 0, false⟩

def ofMessage (limits : Limits) (buffer : Bytes) : Guarded Decoder := do
  let container ← readContainer buffer
  .ok (start limits container.body)

/-- The call in a chunk. It is counted before it is read. -/
def acceptCall (decoder : Decoder) (chunk : Chunk) :
    Guarded (Option (Except Fault Event) × Decoder) :=
  if decoder.limits.maxCalls.toNat ≤ decoder.calls then
    .ok (some (.error (.limitExceeded .calls decoder.limits.maxCalls.toNat)), decoder)
  else do
    let calls ← sum 64 decoder.calls 1
    match ← settle (readCall decoder.config decoder.limits chunk) with
    | .error fault => .ok (some (.error fault), { decoder with calls })
    | .ok request =>
      match decoder.config with
      | none => .error (.fallback .notConfigured)
      | some config => .ok (some (.ok (.call ⟨config, request⟩)), { decoder with calls })

/-- The event of a chunk or the fault in its place, and the decoder behind it; nothing if the chunk
means nothing. -/
def accept (decoder : Decoder) (chunk : Chunk) : Guarded (Option (Except Fault Event) × Decoder) :=
  if chunk.tag = .cnfg then
    match Configuration.negotiate chunk with
    | .error fault => .ok (some (.error fault), decoder)
    | .ok config => .ok (some (.ok (.configured config)), { decoder with config := some config })
  else if chunk.tag = .call then decoder.acceptCall chunk
  else if chunk.tag = .retn then
    match decoder.config with
    | none => .ok (some (.error .notConfigured), decoder)
    | some config => do
      let response ← settle (readResult config chunk)
      .ok (some (response.map .response), decoder)
  else if chunk.tag = .erro then do
    let response ← settle (readError chunk)
    .ok (some (response.map .response), decoder)
  else .ok (none, decoder)

def step (decoder : Decoder) : Guarded (Option (Except Fault Event) × Decoder) :=
  match _read : decoder.chunks.next with
  | .error stop => .error stop
  | .ok (none, chunks) => .ok (none, { decoder with chunks })
  | .ok (some (.error fault), chunks) => .ok (some (.error fault), { decoder with chunks })
  | .ok (some (.ok chunk), chunks) =>
    match accept { decoder with chunks } chunk with
    | .error stop => .error stop
    | .ok (some event, after) => .ok (some event, after)
    | .ok (none, _) => step { decoder with chunks }
termination_by decoder.chunks.remaining
decreasing_by exact Reader.remaining_lt_of_next _read

/-- The decoder behind an answer; a fault ends it for good. -/
def close (decoder : Decoder) : Option (Except Fault Event) → Decoder
  | some (.error _) => { decoder with failed := true }
  | _ => decoder

def next (decoder : Decoder) : Guarded (Option (Except Fault Event) × Decoder) :=
  if decoder.failed then .ok (none, decoder)
  else do
    let (answer, after) ← decoder.step
    .ok (answer, after.close answer)

/-- What a chunk comes to. A call that is refused is counted all the same, which no one sees once
the decoder has failed. -/
def outcome (decoder : Decoder) (calls : Nat) :
    Except Fault (Option Event × Progress) → Option (Except Fault Event) × Decoder
  | .error fault => (some (.error fault), { decoder with calls })
  | .ok (event, progress) =>
    (event.map .ok, { decoder with config := progress.config, calls := progress.calls })

def progress (decoder : Decoder) : Progress := ⟨decoder.config, decoder.calls⟩

/-- A call is counted and read without a trap, and comes to what it does for a plain reader that
remembers the same. -/
theorem acceptCall_eq (decoder : Decoder) {chunk : Chunk} (tag : chunk.tag = .call)
    (short : chunk.payload.length < offsetSpace) :
    ∃ calls, decoder.acceptCall chunk =
      .ok (decoder.outcome calls (decoder.progress.acceptCall decoder.limits chunk)) := by
  rw [acceptCall, Progress.acceptCall, progress]
  dsimp only
  by_cases full : decoder.limits.maxCalls.toNat ≤ decoder.calls
  · rw [if_pos full, if_pos full]
    exact ⟨decoder.calls, rfl⟩
  · -- The bound on calls keeps their count inside its word.
    have counts : decoder.calls + 1 < 2 ^ 64 := by
      have bound := decoder.limits.maxCalls.toNat_lt
      omega
    rw [if_neg full, if_neg full, sum, within_of counts, ok_bind, readCall_eq short, settle_plain,
      ok_bind]
    refine ⟨decoder.calls + 1, ?_⟩
    obtain ⟨chunks, known, limits, calls, failed⟩ := decoder
    cases known with
    | none => rfl
    | some config =>
      rw [Message.decodeChunk_of_tag tag]
      dsimp only
      cases Request.decode config limits chunk.payload <;> rfl

/-- A chunk is taken as by a plain reader that remembers the same. -/
theorem accept_eq (decoder : Decoder) {chunk : Chunk}
    (short : chunk.payload.length < offsetSpace) :
    ∃ calls, decoder.accept chunk =
      .ok (decoder.outcome calls (decoder.progress.accept decoder.limits chunk)) := by
  rw [accept, Progress.accept]
  -- The tag is tested in the same order, and each reader behind it was shown to be plain.
  by_cases configuration : chunk.tag = .cnfg
  · rw [if_pos configuration, if_pos configuration, Progress.acceptConfiguration]
    refine ⟨decoder.calls, ?_⟩
    cases Configuration.negotiate chunk <;> rfl
  rw [if_neg configuration, if_neg configuration]
  by_cases call : chunk.tag = .call
  · rw [if_pos call, if_pos call]
    exact decoder.acceptCall_eq call short
  rw [if_neg call, if_neg call]
  by_cases result : chunk.tag = .retn
  · rw [if_pos result, if_pos result, Progress.acceptResult, progress]
    refine ⟨decoder.calls, ?_⟩
    obtain ⟨chunks, known, limits, calls, failed⟩ := decoder
    cases known with
    | none => rfl
    | some config =>
      dsimp only
      rw [readResult_eq short, settle_plain, ok_bind]
      cases Response.decodeResult config chunk.payload <;> rfl
  rw [if_neg result, if_neg result]
  by_cases error : chunk.tag = .erro
  · rw [if_pos error, if_pos error, readError_eq, settle_plain, ok_bind, Progress.acceptError]
    refine ⟨decoder.calls, ?_⟩
    cases Response.decodeError chunk.payload <;> rfl
  · rw [if_neg error, if_neg error]
    exact ⟨decoder.calls, rfl⟩

/-- The guarded decoder stands where the plain one stands. -/
structure Follows (decoder : Decoder) (other : Message.Decoder) : Prop where
  chunks : decoder.chunks.Follows other.walk
  config : other.progress.config = decoder.config
  limits : other.limits = decoder.limits
  failed : other.failed = decoder.failed
  calls : decoder.failed = false → other.progress.calls = decoder.calls

theorem follows_start (limits : Limits) (body : Bytes) :
    (start limits body).Follows (.start limits body) where
  chunks := Reader.follows_start body limits.maxChunks
  config := rfl
  limits := rfl
  failed := rfl
  calls _ := rfl

theorem step_of_next_none {decoder : Decoder} {chunks : Reader}
    (ended : decoder.chunks.next = .ok (none, chunks)) :
    decoder.step = .ok (none, { decoder with chunks }) := by
  rw [step]
  split <;> simp_all

theorem step_of_next_error {decoder : Decoder} {chunks : Reader} {fault : Fault}
    (failed : decoder.chunks.next = .ok (some (.error fault), chunks)) :
    decoder.step = .ok (some (.error fault), { decoder with chunks }) := by
  rw [step]
  split <;> simp_all

theorem step_of_next_ok {decoder : Decoder} {chunks : Reader} {chunk : Chunk}
    (read : decoder.chunks.next = .ok (some (.ok chunk), chunks)) :
    decoder.step =
      match accept { decoder with chunks } chunk with
      | .error stop => .error stop
      | .ok (some event, after) => .ok (some event, after)
      | .ok (none, _) => step { decoder with chunks } := by
  rw [step]
  split <;> simp_all

theorem Follows.progress {decoder : Decoder} {other : Message.Decoder}
    (follows : decoder.Follows other) (alive : decoder.failed = false) :
    decoder.progress = other.progress := by
  rw [Decoder.progress, ← follows.config, ← follows.calls alive]

/-- A chunk that the plain decoder looks at is taken by the guarded one in the same way. -/
theorem Follows.accept {decoder : Decoder} {other : Message.Decoder} {walk : Walk} {chunk : Chunk}
    (follows : decoder.Follows other) (alive : decoder.failed = false)
    (read : other.walk.next = (some (.ok chunk), walk)) :
    ∃ chunks calls, chunks.Follows walk ∧
      decoder.chunks.next = .ok (some (.ok chunk), chunks) ∧
      Decoder.accept { decoder with chunks } chunk =
        .ok (outcome { decoder with chunks } calls (other.progress.accept other.limits chunk)) := by
  obtain ⟨chunks, answered, later⟩ := follows.chunks.next
  rw [read] at answered later
  obtain ⟨short, -⟩ := length_le_of_next read
  obtain ⟨calls, taken⟩ := accept_eq { decoder with chunks } short
  have same : Decoder.progress { decoder with chunks } = other.progress := follows.progress alive
  rw [same] at taken
  rw [follows.limits]
  exact ⟨chunks, calls, later, answered, taken⟩

/-- Until it has failed, a decoder answers as the plain one. That one is closed within its step,
this one behind it. -/
theorem Follows.step {decoder : Decoder} {other : Message.Decoder} (follows : decoder.Follows other)
    (alive : decoder.failed = false) :
    ∃ after, decoder.step = .ok (other.next.1, after) ∧
      (after.close other.next.1).Follows other.next.2 := by
  fun_induction Message.Decoder.next other generalizing decoder with
  | case1 other failed =>
    rw [follows.failed, alive] at failed
    cases failed
  | case2 other _ walk ended =>
    obtain ⟨chunks, answered, later⟩ := follows.chunks.next
    rw [ended] at answered later
    exact ⟨_, step_of_next_none answered, { follows with chunks := later }⟩
  | case3 other _ fault walk broken =>
    obtain ⟨chunks, answered, later⟩ := follows.chunks.next
    rw [broken] at answered later
    exact ⟨_, step_of_next_error answered,
      { follows with chunks := later, failed := rfl, calls := Bool.noConfusion }⟩
  | case4 other _ chunk walk read fault refused =>
    obtain ⟨chunks, calls, later, answered, taken⟩ := follows.accept alive read
    rw [step_of_next_ok answered, taken, refused]
    exact ⟨_, rfl, { follows with chunks := later, failed := rfl, calls := Bool.noConfusion }⟩
  | case5 other _ chunk walk read progress skipped ih =>
    -- The chunk means nothing, so neither decoder remembers it.
    obtain ⟨chunks, calls, later, answered, taken⟩ := follows.accept alive read
    have same := (Progress.accepts_of_accept skipped).eq_of_skipped
    subst same
    rw [step_of_next_ok answered, taken, skipped]
    exact ih { follows with chunks := later } alive
  | case6 other _ chunk walk read event progress accepted =>
    obtain ⟨chunks, calls, later, answered, taken⟩ := follows.accept alive read
    rw [step_of_next_ok answered, taken, accepted]
    exact ⟨_, rfl, ⟨later, rfl, follows.limits, follows.failed, fun _ => rfl⟩⟩

/-- Asked once, a decoder answers as the plain one that it follows, and goes on following it. -/
theorem Follows.next {decoder : Decoder} {other : Message.Decoder}
    (follows : decoder.Follows other) :
    ∃ after, decoder.next = .ok (other.next.1, after) ∧ after.Follows other.next.2 := by
  by_cases failed : decoder.failed = true
  · have stopped : other.failed = true := follows.failed.trans failed
    rw [Message.Decoder.next_of_failed stopped, Decoder.next, if_pos failed]
    exact ⟨decoder, rfl, follows⟩
  · obtain ⟨after, answered, later⟩ := follows.step (by simpa using failed)
    rw [Decoder.next, if_neg failed, answered]
    exact ⟨_, rfl, later⟩

/-- Asked any number of times, a decoder of a message answers as the plain one, and never traps. -/
theorem asked_ofMessage (limits : Limits) (buffer : Bytes) (calls : Nat) :
    (ofMessage limits buffer >>= asked next calls) =
      plain ((Message.Decoder.ofMessage limits buffer).map fun decoder =>
        (List.range calls).map fun asked => (decoder.advance asked).next.1) := by
  rw [ofMessage, Message.Decoder.ofMessage, readContainer_eq]
  cases Container.read buffer with
  | error fault => rfl
  | ok container =>
    simp only [plain_ok, ok_bind, Except.map]
    exact asked_eq Follows.next calls (follows_start limits container.body)

end Decoder

/-- No step of a reader traps, no fallback is taken, and what comes of it is what the plain reader
says: for chunks at any cursor of any region, for walks that are asked any number of times, for
containers, for calls and responses in chunks whose payload has a 32-bit length, as all chunks of
messages have, for the slots and signed values of parameters of any width, and for messages under
any limits whose decoder is asked any number of times. -/
theorem no_step_traps :
    (∀ (region : Bytes) (cursor : UInt32),
      readChunk region cursor.toNat = plain (Chunk.readAt region cursor.toNat)) ∧
    (∀ region maxChunks calls, asked Reader.next calls (Reader.start region maxChunks) =
      .ok ((List.range calls).map fun asked =>
        ((Walk.start region maxChunks).advance asked).next.1)) ∧
    (∀ buffer, readContainer buffer = plain (Container.read buffer)) ∧
    (∀ config limits chunk, chunk.payload.length < offsetSpace →
      readCall config limits chunk = plain (Request.decodeChunk config limits chunk)) ∧
    (∀ config chunk, chunk.payload.length < offsetSpace →
      readResult config chunk = plain (Response.decodeResult config chunk.payload)) ∧
    (∀ chunk, readError chunk = plain (Response.decodeError chunk.payload)) ∧
    (∀ raw width, makeParameter raw width = .ok (Parameter.ofNat raw width)) ∧
    (∀ parameter : Parameter, signExtend parameter.raw parameter.width = .ok parameter.signed) ∧
    (∀ limits buffer calls, (Decoder.ofMessage limits buffer >>= asked Decoder.next calls) =
      plain ((Message.Decoder.ofMessage limits buffer).map fun decoder =>
        (List.range calls).map fun asked => (decoder.advance asked).next.1)) := by
  refine ⟨?_, Reader.asked_start, readContainer_eq, fun _ _ _ => readCall_eq,
    fun _ _ => readResult_eq, readError_eq, makeParameter_eq, ?_, Decoder.asked_ofMessage⟩
  · intro region cursor
    exact readChunk_eq cursor.toNat_lt
  · -- The bounds that a parameter carries are those that its shifts need.
    intro parameter
    exact signExtend_eq parameter.width_pos parameter.width_le parameter.raw_lt

theorem no_step_traps_crowded :
    (Decoder.ofMessage ⟨6, 1, 0⟩ (Container.wrap crowdedBody) >>= asked Decoder.next 6) =
      .ok (crowdedEvents.map (some ∘ .ok) ++ [some (.error (.limitExceeded .calls 1)), none]) ∧
    readCall (some crowdedConfig) .standard ⟨.call, 0, [0, 5, 7, 7]⟩ = .ok (.bare 5) ∧
    readResult crowdedConfig ⟨.retn, 0, [0xFF, 0xFE, 0, 1]⟩ = .ok (.result (-2) 1) := by
  obtain ⟨-, -, -, calls, results, -, -, -, messages⟩ := no_step_traps
  refine ⟨(messages _ _ _).trans ?_, (calls _ _ _ (by decide)).trans ?_,
    (results _ _ (by decide)).trans ?_⟩
  · decide +kernel
  · decide +kernel
  · decide +kernel

end Semihosting.Guarded
