import Semihosting.Proofs.Guarded.Operations
import Semihosting.Proofs.Riff.Enclosure
import Semihosting.Proofs.Riff.Traversal

/-!
# Guarded readers of chunks

A chunk is read at an offset of its region with sums, differences and slices that could each go
wrong, and a reader counts what it reads. Main statements: none of them does for a chunk
(`readChunk_eq`), for a reader that is asked any number of times (`Reader.asked_start`) and for a
container (`readContainer_eq`).
-/
namespace Semihosting.Guarded

open Riff (Chunk Container FourCC Frame Header Walk formWidth offsetSpace)

/-! ### Single chunks -/

/-- The length of a region, which has to fit 32 bits. -/
def regionLength (region : Bytes) : Guarded Nat :=
  within (region.length < offsetSpace) (.refused Chunk.regionTooLong) region.length

/-- The offset behind the padding byte of a payload of odd size. -/
def pastPadding (length cursor declared payloadStop : Nat) : Guarded Nat :=
  if declared % 2 = 1 then
    match sum? payloadStop 1 with
    | none => refuse (.sizeOverflow cursor declared)
    | some next => if length < next then refuse (.truncated 1 0) else .ok next
  else .ok payloadStop

def readPayload (region : Bytes) (length cursor : Nat) (tag : FourCC) (declared : Nat) :
    Guarded (Chunk × Nat) := do
  let payloadStart ← sum 32 cursor Header.width
  match (sum? cursor Header.width).bind fun stop => sum? stop declared with
  | none => refuse (.sizeOverflow cursor declared)
  | some payloadStop =>
    if length < payloadStop then do
      let available ← difference length payloadStart
      refuse (.oversized declared available)
    else do
      let next ← pastPadding length cursor declared payloadStop
      -- The fallback's own difference is taken whether the fallback is or not.
      let available ← difference length payloadStart
      let payload ←
        cut (.fallback (.oversized declared available)) region payloadStart payloadStop
      .ok (⟨tag, cursor, payload⟩, next)

/-- The chunk at a cursor of a region, and the offset of the next header. -/
def readChunk (region : Bytes) (cursor : Nat) : Guarded (Chunk × Nat) := do
  let length ← regionLength region
  let remaining := length - cursor
  if remaining < Header.width then refuse (.truncated Header.width remaining)
  else do
    let stop ← sum 64 cursor Header.width
    let header ← cut (.fallback (.truncated Header.width remaining)) region cursor stop
    let tag ← readTag header
    let declared ← readSize header
    readPayload region length cursor tag declared

section

variable {region : Bytes} {cursor : Nat}

/-- The cursor is moved behind the padding byte without a trap, or there is none. -/
theorem pastPadding_eq {declared stop : Nat} (at_stop : stop = cursor + Header.width + declared) :
    pastPadding region.length cursor declared stop =
      plain ((Chunk.dropPadding cursor declared (region.drop stop)).map fun _ =>
        stop + Frame.padding declared) := by
  unfold pastPadding Chunk.dropPadding
  by_cases even : declared % 2 = 0
  · simp [even, Frame.padding, Except.map]
  · have odd : declared % 2 = 1 := by omega
    rw [if_pos odd, if_neg even, ← at_stop]
    by_cases wide : offsetSpace ≤ stop + 1
    · rw [sum?_of_le wide, if_pos wide]
      rfl
    · rw [sum?_of_lt (Nat.lt_of_not_le wide), if_neg wide]
      -- The padding byte is missing exactly if nothing stands behind the payload.
      by_cases missing : region.length ≤ stop
      · rw [List.drop_eq_nil_of_le missing]
        simp [plain, Except.map, Nat.lt_succ_of_le missing]
      · obtain ⟨pad, rest, split⟩ := List.exists_cons_of_length_pos
          (show 0 < (region.drop stop).length by rw [List.length_drop]; omega)
        have there : ¬ region.length < stop + 1 := by omega
        simp [split, there, Except.map, Frame.padding, odd]

theorem readPayload_eq {header : Header} (long : cursor + Header.width ≤ region.length)
    (short : region.length < offsetSpace) :
    readPayload region region.length cursor header.tag header.size =
      plain ((Chunk.takePayload cursor header (region.drop (cursor + Header.width))).map
        fun (chunk, _) => (chunk, chunk.stop)) := by
  have start : cursor + Header.width < 2 ^ 32 := Nat.lt_of_le_of_lt long short
  rw [readPayload, sum, within_of start, ok_bind, sum?_of_lt start, Option.bind_some,
    Chunk.takePayload, List.length_drop, List.drop_drop]
  by_cases wide : offsetSpace ≤ cursor + Header.width + header.size
  · rw [sum?_of_le wide, if_pos wide]
    rfl
  · rw [sum?_of_lt (Nat.lt_of_not_le wide), if_neg wide]
    simp only [difference, within_of long, ok_bind]
    by_cases oversized : region.length - (cursor + Header.width) < header.size
    · rw [if_pos oversized, if_pos (by omega)]
      rfl
    · have inside : cursor + Header.width + header.size ≤ region.length := by omega
      rw [if_neg oversized, if_neg (Nat.not_lt_of_le inside), pastPadding_eq rfl, cut,
        within_of ⟨Nat.le_add_right _ _, inside⟩, Nat.add_sub_cancel_left]
      have size : ((region.drop (cursor + Header.width)).take header.size).length =
          header.size := by
        rw [List.length_take, List.length_drop]
        omega
      cases Chunk.dropPadding cursor header.size
          (region.drop (cursor + Header.width + header.size)) with
      | error fault => rfl
      | ok rest => simp [Except.map, Chunk.stop, Chunk.size, size]

/-- A chunk is read without a trap and without a fallback, whatever the region and the cursor. -/
theorem readChunk_eq (narrow : cursor < offsetSpace) :
    readChunk region cursor = plain (Chunk.readAt region cursor) := by
  rw [readChunk, regionLength, Chunk.readAt, Chunk.split, List.length_drop]
  by_cases short : region.length < offsetSpace
  · -- A cursor behind the end of the region counts as its end.
    have all : ¬ offsetSpace ≤ cursor + (region.length - cursor) := by omega
    rw [within_of short, ok_bind, if_neg all]
    cases taken : Header.split? (region.drop cursor) with
    | none =>
      have few := Header.split?_eq_none_iff.mp taken
      rw [List.length_drop] at few
      rw [if_pos few]
      rfl
    | some pair =>
      obtain ⟨header, rest⟩ := pair
      have long : cursor + Header.width ≤ region.length := header_inside taken
      have many : ¬ region.length - cursor < Header.width := by omega
      have stop : cursor + Header.width < 2 ^ 64 :=
        Nat.lt_trans (Nat.lt_of_le_of_lt long short) (by decide)
      rw [if_neg many, sum, within_of stop, ok_bind, cut_header taken, ok_bind,
        readTag_bytes, ok_bind, readSize_bytes (Header.size_lt_of_split? taken), ok_bind,
        readPayload_eq long short, drop_header taken]
  · have long : offsetSpace ≤ cursor + (region.length - cursor) := by omega
    rw [if_pos long, within, if_neg short]
    rfl

theorem drop_of_split {chunk : Chunk} {rest : Bytes}
    (taken : Chunk.split cursor (region.drop cursor) = .ok (chunk, rest)) :
    rest = region.drop chunk.stop ∧ chunk.stop < offsetSpace ∧ cursor < chunk.stop := by
  have short := Chunk.lt_of_split taken
  have total := Chunk.length_of_split taken
  obtain ⟨rfl, pad, padding, split⟩ := Chunk.eq_of_split taken
  refine ⟨?_, by omega, ?_⟩
  · have stop : chunk.stop = chunk.offset +
        ((Header.mk chunk.tag chunk.size).bytes ++ chunk.payload ++ pad).length := by
      simp only [List.length_append, Header.length_bytes, padding, Chunk.stop, Chunk.size]
      omega
    rw [stop, ← List.drop_drop, split, List.drop_left]
  · simp only [Chunk.stop, Header.width]
    omega

/-- A chunk ends behind the cursor, and inside the offsets of 32 bits. -/
theorem lt_of_readChunk {chunk : Chunk} {next : Nat}
    (read : readChunk region cursor = .ok (chunk, next)) :
    cursor < next ∧ next < offsetSpace := by
  by_cases narrow : cursor < offsetSpace
  · rw [readChunk_eq narrow, Chunk.readAt] at read
    cases taken : Chunk.split cursor (region.drop cursor) with
    | error fault => simp [taken, plain, Except.map, refuse] at read
    | ok pair =>
      obtain ⟨found, rest⟩ := pair
      obtain ⟨-, inside, further⟩ := drop_of_split taken
      simp only [taken, Except.map, plain_ok, Except.ok.injEq, Prod.mk.injEq] at read
      obtain ⟨rfl, rfl⟩ := read
      exact ⟨further, inside⟩
  · -- Nothing of a region that is short enough stands so far behind.
    rw [readChunk, regionLength] at read
    by_cases short : region.length < offsetSpace
    · have few : region.length - cursor < Header.width := by
        simp only [Header.width]
        omega
      rw [within_of short, ok_bind, if_pos few] at read
      cases read
    · rw [within, if_neg short] at read
      cases read

end

/-! ### Readers -/

/-- A place in a region, kept as an offset. -/
structure Reader where
  region : Bytes
  cursor : Nat
  seen : Nat
  maxChunks : UInt32
  done : Bool
  deriving DecidableEq, Repr

namespace Reader

def start (region : Bytes) (maxChunks : UInt32) : Reader := ⟨region, 0, 0, maxChunks, false⟩

def next (reader : Reader) : Guarded (Option (Except Fault Chunk) × Reader) :=
  if reader.done ∨ reader.region.length ≤ reader.cursor then
    .ok (none, { reader with done := true })
  else if reader.maxChunks.toNat ≤ reader.seen then
    .ok (some (.error (.limitExceeded .chunks reader.maxChunks.toNat)),
      { reader with done := true })
  else do
    match ← settle (readChunk reader.region reader.cursor) with
    | .error fault => .ok (some (.error fault), { reader with done := true })
    | .ok (chunk, next) =>
      let seen ← sum 32 reader.seen 1
      .ok (some (.ok chunk), { reader with cursor := next, seen })

def remaining (reader : Reader) : Nat := reader.region.length - reader.cursor

theorem remaining_lt_of_next {reader after : Reader} {chunk : Chunk}
    (read : reader.next = .ok (some (.ok chunk), after)) : after.remaining < reader.remaining := by
  unfold next at read
  split at read
  · cases read
  next more =>
    split at read
    · cases read
    · obtain ⟨outcome, settled, read⟩ := bind_eq_ok_iff.mp read
      cases outcome with
      | error fault => cases read
      | ok pair =>
        obtain ⟨further, -⟩ := lt_of_readChunk (eq_ok_of_settle settled)
        obtain ⟨seen, -, read⟩ := bind_eq_ok_iff.mp read
        cases read
        simp only [remaining]
        omega

/-- The reader stands where the walk stands. -/
structure Follows (reader : Reader) (walk : Walk) : Prop where
  unread : walk.unread = reader.region.drop reader.cursor
  cursor : walk.cursor = reader.cursor
  seen : walk.seen = reader.seen
  maxChunks : walk.maxChunks = reader.maxChunks
  narrow : reader.cursor < offsetSpace
  failed : walk.failed = true → reader.done = true
  finished : reader.done = true → walk.failed = true ∨ walk.unread = []

theorem follows_start (region : Bytes) (maxChunks : UInt32) :
    (start region maxChunks).Follows (.start region maxChunks) where
  unread := rfl
  cursor := rfl
  seen := rfl
  maxChunks := rfl
  narrow := show 0 < offsetSpace by decide
  failed := nofun
  finished := nofun

/-- Asked once, a reader answers as the walk that it follows, and goes on following it. -/
theorem Follows.next {reader : Reader} {walk : Walk} (follows : reader.Follows walk) :
    ∃ after, reader.next = .ok (walk.next.1, after) ∧ after.Follows walk.next.2 := by
  obtain ⟨unread, cursor, seen, maxChunks, failed⟩ := walk
  obtain ⟨rfl, rfl, rfl, rfl, narrow, stopped, finished⟩ := follows
  dsimp only at stopped finished
  rw [Walk.next, Reader.next]
  dsimp only
  -- A reader is also done at the end of its region, which the walk tells from what is unread.
  by_cases ended : failed = true ∨ reader.region.drop reader.cursor = []
  · have ended' : reader.done = true ∨ reader.region.length ≤ reader.cursor :=
      ended.imp stopped List.drop_eq_nil_iff.mp
    rw [if_pos ended, if_pos ended']
    exact ⟨_, rfl, rfl, rfl, rfl, rfl, narrow, fun _ => rfl, fun _ => ended⟩
  · have ended' : ¬(reader.done = true ∨ reader.region.length ≤ reader.cursor) := by
      rintro (done | behind)
      · exact ended (finished done)
      · exact ended (Or.inr (List.drop_eq_nil_of_le behind))
    rw [if_neg ended, if_neg ended']
    by_cases full : reader.maxChunks.toNat ≤ reader.seen
    · rw [if_pos full, if_pos full]
      exact ⟨_, rfl, rfl, rfl, rfl, rfl, narrow, fun _ => rfl, fun _ => Or.inl rfl⟩
    · rw [if_neg full, if_neg full, readChunk_eq narrow, settle_plain, ok_bind, Chunk.readAt]
      cases taken : Chunk.split reader.cursor (reader.region.drop reader.cursor) with
      | error fault =>
        exact ⟨_, rfl, rfl, rfl, rfl, rfl, narrow, fun _ => rfl, fun _ => Or.inl rfl⟩
      | ok pair =>
        obtain ⟨chunk, rest⟩ := pair
        obtain ⟨rfl, inside, -⟩ := drop_of_split taken
        -- The bound on chunks keeps their count inside its word.
        have counts : reader.seen + 1 < 2 ^ 32 := by
          have bound := reader.maxChunks.toNat_lt
          omega
        simp only [Except.map, sum, within_of counts, ok_bind]
        refine ⟨_, rfl, rfl, rfl, rfl, rfl, inside, stopped, ?_⟩
        exact fun done => absurd (Or.inl done) ended'

/-- Asked any number of times, a reader answers as the walk of its region does. -/
theorem asked_start (region : Bytes) (maxChunks : UInt32) (calls : Nat) :
    asked next calls (start region maxChunks) =
      .ok ((List.range calls).map fun asked =>
        ((Walk.start region maxChunks).advance asked).next.1) :=
  asked_eq Follows.next calls (follows_start region maxChunks)

end Reader

/-! ### Containers -/

/-- The form and the body behind a header that was found to be in order. -/
def readForm (buffer : Bytes) (declared available : Nat) : Guarded Container := do
  let opening ←
    cut (.fallback (.truncated Container.headerWidth buffer.length)) buffer Header.width
      Container.headerWidth
  let form ← readTag opening
  if form ≠ .semi then refuse (.badForm form)
  else do
    let stop ← sum 64 Header.width declared
    let body ← cut (.fallback (.oversized declared available)) buffer Container.headerWidth stop
    .ok ⟨declared, body⟩

def readContainer (buffer : Bytes) : Guarded Container := do
  let header ←
    cut (.refused (.truncated Container.headerWidth buffer.length)) buffer 0 Header.width
  let magic ← readTag header
  if magic ≠ .riff then refuse (.badMagic magic)
  else do
    let declared ← readSize header
    let available ← difference buffer.length Header.width
    if available < declared then refuse (.oversized declared available)
    else if declared < formWidth then refuse (.shortPayload .riff formWidth declared)
    else readForm buffer declared available

theorem exists_splitForm? {rest : Bytes} (long : formWidth ≤ rest.length) :
    ∃ form region, Container.splitForm? rest = some (form, region) := by
  match rest with
  | a :: b :: c :: d :: region => exact ⟨_, _, rfl⟩
  | [] | [_] | [_, _] | [_, _, _] => simp [formWidth] at long

/-- Behind the header of a container the form and the body are cut out without a trap. -/
theorem readForm_eq {buffer region : Bytes} {form : FourCC} {declared available : Nat}
    (behind : buffer.drop Header.width = form.bytes ++ region) (small : declared < offsetSpace)
    (formed : formWidth ≤ declared) (inside : Header.width + declared ≤ buffer.length) :
    readForm buffer declared available =
      plain (if form ≠ .semi then .error (.badForm form)
        else .ok ⟨declared, region.take (declared - formWidth)⟩) := by
  have start : Container.headerWidth ≤ Header.width + declared :=
    Nat.add_le_add_left formed Header.width
  have room : Container.headerWidth ≤ buffer.length := Nat.le_trans start inside
  have width : Container.headerWidth - Header.width = form.bytes.length := rfl
  have body : buffer.drop Container.headerWidth = region := by
    rw [Container.headerWidth, ← List.drop_drop, behind]
    exact List.drop_left' form.length_bytes
  rw [readForm, cut, within_of ⟨by decide, room⟩, behind, width, List.take_left, ok_bind,
    readTag_form, ok_bind]
  by_cases foreign : form ≠ .semi
  · rw [if_pos foreign, if_pos foreign]
    rfl
  · have stop : Header.width + declared < 2 ^ 64 := by
      simp only [offsetSpace, UInt32.size, Header.width] at *
      omega
    have size : Header.width + declared - Container.headerWidth = declared - formWidth :=
      Nat.add_sub_add_left Header.width declared formWidth
    rw [if_neg foreign, if_neg foreign, sum, within_of stop, ok_bind, cut,
      within_of ⟨start, inside⟩, body, size]
    rfl

/-- A container is read without a trap and without a fallback, whatever the buffer. -/
theorem readContainer_eq (buffer : Bytes) :
    readContainer buffer = plain (Container.read buffer) := by
  rw [readContainer, Container.read]
  cases taken : Header.split? buffer with
  | none =>
    have few : ¬(0 ≤ Header.width ∧ Header.width ≤ buffer.length) := by
      have short := Header.split?_eq_none_iff.mp taken
      omega
    rw [cut, within, if_neg few]
    rfl
  | some pair =>
    obtain ⟨header, rest⟩ := pair
    have front : Header.split? (buffer.drop 0) = some (header, rest) := taken
    have total := Header.length_of_split? taken
    have small := Header.size_lt_of_split? taken
    have available : Header.width ≤ buffer.length := by omega
    have left : buffer.length - Header.width = rest.length := by omega
    have opened {otherwise} : cut otherwise buffer 0 Header.width = .ok header.bytes := by
      simpa only [Nat.zero_add] using cut_header front
    simp only [opened, ok_bind, readTag_bytes, readSize_bytes small, difference,
      within_of available, left]
    by_cases magic : header.tag ≠ .riff
    · rw [if_pos magic, if_pos magic]
      rfl
    by_cases oversized : rest.length < header.size
    · rw [if_neg magic, if_neg magic, if_pos oversized, if_pos oversized]
      rfl
    by_cases formless : header.size < formWidth
    · rw [if_neg magic, if_neg magic, if_neg oversized, if_neg oversized, if_pos formless,
        if_pos formless]
      rfl
    -- What is left holds a form, and the body ends inside the buffer.
    have long : formWidth ≤ rest.length := by omega
    obtain ⟨form, region, formed⟩ := exists_splitForm? long
    have behind : buffer.drop Header.width = form.bytes ++ region := by
      rw [← Container.eq_of_splitForm? formed]
      simpa only [Nat.zero_add] using drop_header front
    rw [if_neg magic, if_neg magic, if_neg oversized, if_neg oversized, if_neg formless,
      if_neg formless, formed, readForm_eq behind small (by omega) (by omega)]

end Semihosting.Guarded
