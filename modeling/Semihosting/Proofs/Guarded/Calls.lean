import Semihosting.Proofs.Guarded.Chunks
import Semihosting.Proofs.Guarded.Words
import Semihosting.Proofs.Message.Accounting
import Semihosting.Proofs.Message.Ample

/-!
# Guarded readers of calls and responses

The payloads of calls and results are split at widths that depend on the configuration, and the
integers in them are masked and extended by shifts that depend on the same widths. All of these are
in order because no configuration has other widths than one, two, four and eight bytes.
-/
namespace Semihosting.Guarded

open Riff (Chunk Walk offsetSpace)

/-! ### Parameters -/

/-- The size that a chunk reports: the low 32 bits of the length of its payload. -/
def reportedSize (chunk : Chunk) : Nat := chunk.payload.length % offsetSpace

theorem reportedSize_eq {chunk : Chunk} (short : chunk.payload.length < offsetSpace) :
    reportedSize chunk = chunk.payload.length :=
  Nat.mod_eq_of_lt short

variable {config : Configuration} {limits : Limits}

/-- Whole pieces of a positive width. -/
def pieces (width : Nat) (bytes : Bytes) : Guarded (List Bytes) :=
  within (0 < width) (.trapped (.division bytes.length width)) (Request.slots width bytes)

def readParameters (config : Configuration) (limits : Limits) (request : Request) (chunk : Chunk) :
    Guarded Request := do
  let surplus ← remainder chunk.payload.length config.slotWidth
  if surplus ≠ 0 then refuse (.raggedParameters (reportedSize chunk) config.slotWidth)
  else do
    let added ← quotient chunk.payload.length config.slotWidth
    -- This sum stops at the greatest word instead of leaving it.
    let wanted := min (request.parameters.length + added) (UInt64.size - 1)
    if limits.maxParameters.toNat < wanted then
      refuse (.limitExceeded .parameters limits.maxParameters.toNat)
    else do
      let slots ← pieces config.slotWidth chunk.payload
      let parameters ← slots.mapM fun slot =>
        makeParameter (config.order.read slot) config.slotWidth
      .ok { request with parameters := request.parameters ++ parameters }

def absorb (config : Configuration) (limits : Limits) (request : Request) (chunk : Chunk) :
    Guarded Request :=
  if chunk.tag = .parm then readParameters config limits request chunk
  else if chunk.tag = .data then plain (request.addData chunk.payload)
  else .ok request

/-- Parameters are added without a trap. Their number is bounded by bytes that fit into memory, so
counting them stays inside its word. -/
theorem readParameters_eq {request : Request} {chunk : Chunk}
    (short : chunk.payload.length < offsetSpace)
    (room : request.parameters.length + chunk.payload.length < UInt64.size) :
    readParameters config limits request chunk =
      plain (request.addParameters config limits chunk.payload) := by
  have positive := config.slotWidth_pos
  rw [readParameters, Request.addParameters, remainder, within_of positive, ok_bind,
    reportedSize_eq short]
  by_cases ragged : chunk.payload.length % config.slotWidth ≠ 0
  · rw [if_pos ragged, if_pos ragged]
    rfl
  · have added := Nat.div_le_self chunk.payload.length config.slotWidth
    -- The sum is cut off at the greatest word, which it does not reach.
    have wanted : min (request.parameters.length + chunk.payload.length / config.slotWidth)
        (UInt64.size - 1) = request.parameters.length + chunk.payload.length / config.slotWidth :=
      Nat.min_eq_left (by omega)
    rw [if_neg ragged, if_neg ragged, quotient, within_of positive, ok_bind]
    simp only [wanted]
    by_cases excess : limits.maxParameters.toNat <
        request.parameters.length + chunk.payload.length / config.slotWidth
    · rw [if_pos excess, if_pos excess]
      rfl
    · rw [if_neg excess, if_neg excess, pieces, within_of positive, ok_bind]
      have read : ((Request.slots config.slotWidth chunk.payload).mapM fun slot =>
          makeParameter (config.order.read slot) config.slotWidth) =
            .ok (Request.readSlots config chunk.payload) := by
        simp only [makeParameter_eq]
        exact List.mapM_pure
      rw [read, ok_bind]
      rfl

theorem absorb_eq {request : Request} {chunk : Chunk} (short : chunk.payload.length < offsetSpace)
    (room : request.parameters.length + chunk.payload.length < UInt64.size) :
    absorb config limits request chunk = plain (request.absorb config limits chunk) := by
  rw [absorb, Request.absorb]
  by_cases parameters : chunk.tag = .parm
  · rw [if_pos parameters, if_pos parameters, readParameters_eq short room]
  · rw [if_neg parameters, if_neg parameters]
    by_cases data : chunk.tag = .data
    · rw [if_pos data, if_pos data]
    · rw [if_neg data, if_neg data]
      rfl

/-! ### Calls -/

/-- Takes up the chunks that a reader still finds. -/
def absorbAll (config : Configuration) (limits : Limits) (reader : Reader) (request : Request) :
    Guarded Request :=
  match _read : reader.next with
  | .error stop => .error stop
  | .ok (none, _) => .ok request
  | .ok (some (.error fault), _) => refuse fault
  | .ok (some (.ok chunk), after) => do
    let request ← absorb config limits request chunk
    absorbAll config limits after request
termination_by reader.remaining
decreasing_by exact Reader.remaining_lt_of_next _read

def readCall (config : Option Configuration) (limits : Limits) (chunk : Chunk) : Guarded Request :=
  match config with
  | none => refuse .notConfigured
  | some config =>
    if chunk.tag ≠ .call then refuse (.invalidField .chunkId chunk.tag.toNat)
    else if reportedSize chunk < config.callHeaderWidth then
      refuse (.shortPayload .call config.callHeaderWidth (reportedSize chunk))
    else do
      let (header, region) ← splitAt chunk.payload config.callHeaderWidth
      let number ← slice header 0 config.intSize.bytes
      let opcode := config.order.read number
      if opcode < UInt32.size then
        absorbAll config limits (Reader.start region limits.maxChunks) (.bare (UInt32.ofNat opcode))
      else refuse (.invalidField .opcode opcode)

theorem length_le_of_next {walk after : Walk} {chunk : Chunk}
    (read : walk.next = (some (.ok chunk), after)) :
    chunk.payload.length < offsetSpace ∧
      chunk.payload.length + after.unread.length ≤ walk.unread.length := by
  obtain ⟨frame, rest, front, -, rfl, rfl⟩ := Walk.eq_past_of_next read
  refine ⟨frame.fits, ?_⟩
  have total := congrArg List.length front
  rw [List.length_append, frame.length_bytes] at total
  show frame.payload.length + rest.length ≤ walk.unread.length
  omega

theorem absorbAll_of_next_none {reader after : Reader} {request : Request}
    (ended : reader.next = .ok (none, after)) :
    absorbAll config limits reader request = .ok request := by
  rw [absorbAll]
  split <;> simp_all

theorem absorbAll_of_next_error {reader after : Reader} {request : Request} {fault : Fault}
    (failed : reader.next = .ok (some (.error fault), after)) :
    absorbAll config limits reader request = refuse fault := by
  rw [absorbAll]
  split <;> simp_all

theorem absorbAll_of_next_ok {reader after : Reader} {request : Request} {chunk : Chunk}
    (read : reader.next = .ok (some (.ok chunk), after)) :
    absorbAll config limits reader request =
      absorb config limits request chunk >>= absorbAll config limits after := by
  rw [absorbAll]
  split <;> simp_all

/-- The chunks of a call are taken in without a trap. The unread bytes bound the parameters to come,
and that bound is what carries the induction. -/
theorem absorbAll_eq {reader : Reader} {walk : Walk} {request : Request}
    (follows : reader.Follows walk)
    (room : request.parameters.length + walk.unread.length < UInt64.size) :
    absorbAll config limits reader request =
      plain (walk.fold (Request.absorb config limits) request) := by
  fun_induction Walk.fold (Request.absorb config limits) walk request generalizing reader with
  | case1 walk request after ended =>
    obtain ⟨behind, answered, -⟩ := follows.next
    rw [ended] at answered
    exact absorbAll_of_next_none answered
  | case2 walk request fault after failed =>
    obtain ⟨behind, answered, -⟩ := follows.next
    rw [failed] at answered
    exact absorbAll_of_next_error answered
  | case3 walk request chunk after read fault refused =>
    obtain ⟨behind, answered, -⟩ := follows.next
    obtain ⟨short, taken⟩ := length_le_of_next read
    rw [read] at answered
    rw [absorbAll_of_next_ok answered, absorb_eq short (by omega), refused]
    rfl
  | case4 walk request chunk after read next absorbed ih =>
    obtain ⟨behind, answered, later⟩ := follows.next
    obtain ⟨short, taken⟩ := length_le_of_next read
    -- A parameter takes at least one byte of its chunk, so the room shrinks with the region.
    have added := (Request.absorbs_of_absorb absorbed).length_parameters_le
    rw [Chunk.size] at added
    rw [read] at answered later
    rw [absorbAll_of_next_ok answered, absorb_eq short (by omega), absorbed]
    exact ih later (by omega)

/-- A call is read without a trap, whatever its payload and whether or not there is a configuration.
-/
theorem readCall_eq {config : Option Configuration} {chunk : Chunk}
    (short : chunk.payload.length < offsetSpace) :
    readCall config limits chunk = plain (Request.decodeChunk config limits chunk) := by
  cases config with
  | none => rfl
  | some config =>
    rw [readCall, Request.decodeChunk, reportedSize_eq short]
    dsimp only
    by_cases tag : chunk.tag ≠ .call
    · rw [if_pos tag, if_pos tag]
      rfl
    rw [if_neg tag, if_neg tag, Request.decode]
    by_cases headless : chunk.payload.length < config.callHeaderWidth
    · rw [if_pos headless, if_pos headless]
      rfl
    -- The header of a call holds at least the opcode.
    have header : config.callHeaderWidth ≤ chunk.payload.length := Nat.le_of_not_lt headless
    have narrow := config.intSize_le_callHeaderWidth
    have number : slice (chunk.payload.take config.callHeaderWidth) 0 config.intSize.bytes =
        .ok (chunk.payload.take config.intSize.bytes) := by
      have inside : config.intSize.bytes ≤ (chunk.payload.take config.callHeaderWidth).length := by
        rw [List.length_take]
        omega
      rw [slice, cut, within_of ⟨Nat.zero_le _, inside⟩, List.drop_zero, List.take_take,
        Nat.sub_zero, Nat.min_eq_left narrow]
    rw [if_neg headless, if_neg headless, splitAt, within_of header, ok_bind]
    simp only [number, ok_bind, Request.readOpcode]
    by_cases small : config.order.read (chunk.payload.take config.intSize.bytes) < UInt32.size
    · rw [if_pos small, if_pos small]
      apply absorbAll_eq (Reader.follows_start _ _)
      have rest : (chunk.payload.drop config.callHeaderWidth).length ≤ chunk.payload.length := by
        rw [List.length_drop]
        exact Nat.sub_le _ _
      have word : offsetSpace < UInt64.size := by decide
      simp only [Request.bare, Walk.start, List.length_nil]
      omega
    · rw [if_neg small, if_neg small]
      rfl

/-! ### Responses -/

def readResult (config : Configuration) (chunk : Chunk) : Guarded Response :=
  if reportedSize chunk < config.returnPayloadSize then
    refuse (.shortPayload .retn config.returnPayloadSize (reportedSize chunk))
  else do
    let (value, rest) ← splitAt chunk.payload config.intSize.bytes
    let errno ← slice rest 0 config.intSize.bytes
    let value ← signExtend (config.order.read value) config.intSize.bytes
    let errno ← signExtend (config.order.read errno) config.intSize.bytes
    .ok (.result (Int64.ofInt value) (Int64.ofInt errno))

def readError (chunk : Chunk) : Guarded Response :=
  match chunk.payload with
  | a :: b :: c :: d :: _ => .ok (.error (UInt32.ofNat (Bytes.toNat [a, b, c, d])))
  | _ => refuse (.shortPayload .erro Response.errorPayloadSize (reportedSize chunk))

/-- An integer of the negotiated width is inside its range, so its sign can be extended. -/
theorem signExtend_read {order : ByteOrder} {width : Width} {bytes : Bytes}
    (length : bytes.length = width.bytes) :
    signExtend (order.read bytes) width.bytes = .ok (order.readSigned bytes) := by
  have short : bytes.length ≤ 8 := length ▸ width.bytes_le
  rw [← length, signExtend_eq (length ▸ width.bytes_pos) short (order.read_lt_of_length short)]
  rfl

theorem readResult_eq {chunk : Chunk} (short : chunk.payload.length < offsetSpace) :
    readResult config chunk = plain (Response.decodeResult config chunk.payload) := by
  rw [readResult, Response.decodeResult, reportedSize_eq short]
  by_cases few : chunk.payload.length < config.returnPayloadSize
  · rw [if_pos few, if_pos few]
    rfl
  · have both : config.intSize.bytes + config.intSize.bytes ≤ chunk.payload.length := by
      simp only [Configuration.returnPayloadSize] at few
      omega
    have first : config.intSize.bytes ≤ chunk.payload.length := by omega
    have second : config.intSize.bytes ≤ (chunk.payload.drop config.intSize.bytes).length := by
      rw [List.length_drop]
      omega
    rw [if_neg few, if_neg few, splitAt, within_of first, ok_bind]
    simp only [slice, cut, within_of (And.intro (Nat.zero_le _) second), List.drop_zero,
      Nat.sub_zero, ok_bind, signExtend_read (List.length_take_of_le first),
      signExtend_read (List.length_take_of_le second)]
    rfl

theorem readError_eq (chunk : Chunk) :
    readError chunk = plain (Response.decodeError chunk.payload) := by
  obtain ⟨tag, offset, payload⟩ := chunk
  match payload with
  | a :: b :: c :: d :: rest => rfl
  -- The payload is short enough for its reported size to be its length.
  | [] | [_] | [_, _] | [_, _, _] => rfl

end Semihosting.Guarded
