import Semihosting.Fault
import Semihosting.Riff.Frame

/-!
# Chunks

A chunk is a frame found at an offset of a region. Reading one needs only the bytes from its
offset on; the offset enters the checks that keep all offsets within 32 bits. A hostile size is
refused before any payload byte is looked at. Main statement: a chunk that is read is a header, its
payload and its padding, and what is returned beside it is the rest (`eq_of_split`).
-/
namespace Semihosting.Riff

/-- A tagged payload and the offset of its header inside the region it was read from. -/
structure Chunk where
  tag : FourCC
  offset : Nat
  payload : Bytes
  deriving DecidableEq, Repr

namespace Chunk

/-- The size a chunk declares: that of its payload, without padding. -/
def size (chunk : Chunk) : Nat := chunk.payload.length

/-- The offset just behind a chunk and its padding. -/
def stop (chunk : Chunk) : Nat :=
  chunk.offset + Header.width + chunk.size + Frame.padding chunk.size

/-- The fault of a region whose offsets would not all fit in 32 bits. -/
def regionTooLong : Fault := .limitExceeded .regionLength (offsetSpace - 1)

/-- A chunk that stands alone, at offset zero. -/
def alone (tag : FourCC) (payload : Bytes) : Except Fault Chunk :=
  if offsetSpace ≤ payload.length then .error regionTooLong else .ok ⟨tag, 0, payload⟩

/-- Drops the padding byte that follows a payload of odd size. Its value does not matter. -/
def dropPadding (offset size : Nat) (rest : Bytes) : Except Fault Bytes :=
  if size % 2 = 0 then .ok rest
  else if offsetSpace ≤ offset + Header.width + size + 1 then .error (.sizeOverflow offset size)
  else match rest with
    | [] => .error (.truncated 1 0)
    | _ :: rest => .ok rest

/-- Takes the payload that a header at the offset declares off the bytes behind the header. -/
def takePayload (offset : Nat) (header : Header) (rest : Bytes) : Except Fault (Chunk × Bytes) :=
  -- The offset space is judged before the bytes at hand, so a wrapping size is told from a long one.
  if offsetSpace ≤ offset + Header.width + header.size then
    .error (.sizeOverflow offset header.size)
  else if rest.length < header.size then
    .error (.oversized header.size rest.length)
  else
    (dropPadding offset header.size (rest.drop header.size)).map fun behind =>
      (⟨header.tag, offset, rest.take header.size⟩, behind)

/-- Takes the chunk at the offset off the bytes from there on, and returns what follows its
padding beside it. -/
def split (offset : Nat) (bytes : Bytes) : Except Fault (Chunk × Bytes) :=
  if offsetSpace ≤ offset + bytes.length then .error regionTooLong
  else match Header.split? bytes with
    | none => .error (.truncated Header.width bytes.length)
    | some (header, rest) => takePayload offset header rest

/-- The chunk at a cursor of a region, and the cursor of the next one. -/
def readAt (region : Bytes) (cursor : Nat) : Except Fault (Chunk × Nat) :=
  (split cursor (region.drop cursor)).map fun (chunk, _) => (chunk, chunk.stop)

theorem eq_of_dropPadding {offset size : Nat} {bytes rest : Bytes}
    (dropped : dropPadding offset size bytes = .ok rest) :
    ∃ pad : Bytes, pad.length = Frame.padding size ∧ bytes = pad ++ rest := by
  unfold dropPadding at dropped
  split at dropped
  next even =>
    cases dropped
    exact ⟨[], by simp [Frame.padding, even], rfl⟩
  next odd =>
    split at dropped
    · cases dropped
    · split at dropped
      · cases dropped
      next pad _ =>
        cases dropped
        exact ⟨[pad], by simp [Frame.padding]; omega, rfl⟩

/-- A chunk that was read stands at the front, and nothing but its padding is lost. -/
theorem eq_of_split {offset : Nat} {bytes rest : Bytes} {chunk : Chunk}
    (taken : split offset bytes = .ok (chunk, rest)) :
    chunk.offset = offset ∧ ∃ pad : Bytes, pad.length = Frame.padding chunk.size ∧
      bytes = (Header.mk chunk.tag chunk.size).bytes ++ chunk.payload ++ pad ++ rest := by
  unfold split at taken
  split at taken
  · cases taken
  · split at taken
    · cases taken
    next header behind found =>
      unfold takePayload at taken
      split at taken
      · cases taken
      · split at taken
        · cases taken
        next enough =>
          cases dropped : dropPadding offset header.size (behind.drop header.size) with
          | error fault => simp [dropped, Except.map] at taken
          | ok after =>
            simp only [dropped, Except.map, Except.ok.injEq, Prod.mk.injEq] at taken
            obtain ⟨rfl, rfl⟩ := taken
            obtain ⟨pad, length, split⟩ := eq_of_dropPadding dropped
            -- Enough bytes are there, so the payload has the size that the header declares.
            have size : (behind.take header.size).length = header.size := by
              simp; omega
            refine ⟨rfl, pad, ?_, ?_⟩
            · simpa [Chunk.size, size] using length
            · simp only [Chunk.size, size]
              rw [List.append_assoc, ← split, List.append_assoc, List.take_append_drop]
              exact Header.eq_of_split? found

/-- Reading a chunk consumes its header, payload and padding. -/
theorem length_of_split {offset : Nat} {bytes rest : Bytes} {chunk : Chunk}
    (taken : split offset bytes = .ok (chunk, rest)) :
    offset + bytes.length = chunk.stop + rest.length := by
  obtain ⟨rfl, pad, length, rfl⟩ := eq_of_split taken
  simp [stop, size, length]
  omega

theorem length_lt_of_split {offset : Nat} {bytes rest : Bytes} {chunk : Chunk}
    (taken : split offset bytes = .ok (chunk, rest)) : rest.length < bytes.length := by
  have total := length_of_split taken
  obtain ⟨rfl, _⟩ := eq_of_split taken
  simp only [stop, Header.width] at total
  omega

end Chunk

end Semihosting.Riff
