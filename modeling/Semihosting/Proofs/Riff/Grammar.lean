import Semihosting.Riff.Chunk

/-!
# Regions as sequences of frames

A well-formed region is a sequence of frames whose padding bytes may hold anything. This grammar
does not mention how regions are read. Main statements: a chunk is taken off a region exactly if a
frame stands at its front (`Chunk.split_eq_ok_iff`), a region is a sequence of frames in at most one
way (`concat_injective`), and frames that end where no frame stands are the most that can be split
off (`isPrefix_of_concat`).
-/
namespace Semihosting.Riff

/-- The number of bytes of a frame with a payload of the given size. -/
def Frame.span (size : Nat) : Nat := Header.width + size + padding size

/-- The number of bytes that chunks take up in their region. -/
def Chunk.extent : List Chunk → Nat
  | [] => 0
  | chunk :: rest => Frame.span chunk.size + extent rest

theorem Frame.span_mono {small large : Nat} (le : small ≤ large) : span small ≤ span large := by
  simp only [span, padding]
  omega

theorem Frame.span_add_le (first second : Nat) :
    span (first + second) ≤ span first + span second := by
  simp only [span, padding]
  omega

@[simp] theorem Chunk.extent_cons (chunk : Chunk) (rest : List Chunk) :
    Chunk.extent (chunk :: rest) = Frame.span chunk.size + Chunk.extent rest := rfl

theorem Chunk.extent_append (front back : List Chunk) :
    Chunk.extent (front ++ back) = Chunk.extent front + Chunk.extent back := by
  induction front with
  | nil => exact (Nat.zero_add _).symm
  | cons chunk rest ih => rw [List.cons_append, extent_cons, ih, extent_cons, Nat.add_assoc]

/-- A frame as it stands in a region. Its padding byte, if it has one, may hold anything. -/
structure WireFrame extends Frame where
  pad : Bytes
  fits : payload.length < offsetSpace
  pad_length : pad.length = Frame.padding payload.length
  deriving DecidableEq, Repr

namespace WireFrame

/-- The bytes of a frame, padding included. -/
def bytes (frame : WireFrame) : Bytes :=
  (Header.mk frame.tag frame.payload.length).bytes ++ frame.payload ++ frame.pad

def chunkAt (frame : WireFrame) (offset : Nat) : Chunk := ⟨frame.tag, offset, frame.payload⟩

/-- A frame as it is written, with padding of zero. -/
def ofFrame (frame : Frame) (fits : frame.payload.length < offsetSpace) : WireFrame where
  toFrame := frame
  pad := List.replicate (Frame.padding frame.payload.length) 0
  fits := fits
  pad_length := List.length_replicate

def concat (frames : List WireFrame) : Bytes := frames.flatMap bytes

def chunksFrom : Nat → List WireFrame → List Chunk
  | _, [] => []
  | offset, frame :: rest =>
    frame.chunkAt offset :: chunksFrom (offset + frame.bytes.length) rest

@[simp] theorem bytes_ofFrame (frame : Frame) (fits : frame.payload.length < offsetSpace) :
    (ofFrame frame fits).bytes = frame.bytes := rfl

theorem ext_frame {left right : WireFrame} (tag : left.tag = right.tag)
    (payload : left.payload = right.payload) (pad : left.pad = right.pad) : left = right := by
  obtain ⟨⟨_, _⟩, _, _, _⟩ := left
  obtain ⟨⟨_, _⟩, _, _, _⟩ := right
  cases tag; cases payload; cases pad
  rfl

theorem length_bytes (frame : WireFrame) :
    frame.bytes.length =
      Header.width + frame.payload.length + Frame.padding frame.payload.length := by
  simp only [bytes, List.length_append, Header.length_bytes, frame.pad_length]

theorem width_le_length_bytes (frame : WireFrame) : Header.width ≤ frame.bytes.length := by
  rw [length_bytes]
  omega

theorem bytes_ne_nil (frame : WireFrame) : frame.bytes ≠ [] := by
  intro empty
  have width := frame.width_le_length_bytes
  rw [empty] at width
  exact absurd width (by decide)

theorem toFrame_bytes_eq {frame : WireFrame} (clear : ∀ byte ∈ frame.pad, byte = 0) :
    frame.toFrame.bytes = frame.bytes := by
  have zeros : frame.pad = List.replicate (Frame.padding frame.payload.length) 0 := by
    rw [← frame.pad_length]
    exact List.eq_replicate_iff.mpr ⟨rfl, clear⟩
  rw [bytes, zeros]
  rfl

@[simp] theorem stop_chunkAt (frame : WireFrame) (offset : Nat) :
    (frame.chunkAt offset).stop = offset + frame.bytes.length := by
  rw [length_bytes]
  simp only [Chunk.stop, chunkAt, Chunk.size]
  omega

@[simp] theorem concat_nil : concat [] = [] := rfl

@[simp] theorem concat_cons (frame : WireFrame) (rest : List WireFrame) :
    concat (frame :: rest) = frame.bytes ++ concat rest := List.flatMap_cons

@[simp] theorem concat_append (front back : List WireFrame) :
    concat (front ++ back) = concat front ++ concat back := List.flatMap_append

@[simp] theorem chunksFrom_nil (offset : Nat) : chunksFrom offset [] = [] := rfl

@[simp] theorem chunksFrom_cons (offset : Nat) (frame : WireFrame) (rest : List WireFrame) :
    chunksFrom offset (frame :: rest) =
      frame.chunkAt offset :: chunksFrom (offset + frame.bytes.length) rest := rfl

@[simp] theorem length_chunksFrom (offset : Nat) (frames : List WireFrame) :
    (chunksFrom offset frames).length = frames.length := by
  induction frames generalizing offset with
  | nil => rfl
  | cons frame rest ih => simp only [chunksFrom_cons, List.length_cons, ih]

theorem getElem?_chunksFrom (offset : Nat) (frames : List WireFrame) (index : Nat) :
    (chunksFrom offset frames)[index]? =
      frames[index]?.map fun frame =>
        frame.chunkAt (offset + (concat (frames.take index)).length) := by
  induction frames generalizing offset index with
  | nil => rfl
  | cons frame rest ih =>
    cases index with
    | zero => rfl
    | succ index =>
      simp only [chunksFrom_cons, List.getElem?_cons_succ, ih, List.take_succ_cons, concat_cons,
        List.length_append, Nat.add_assoc]

theorem extent_chunksFrom (offset : Nat) (frames : List WireFrame) :
    Chunk.extent (chunksFrom offset frames) = (concat frames).length := by
  induction frames generalizing offset with
  | nil => rfl
  | cons frame rest ih =>
    rw [chunksFrom_cons, Chunk.extent_cons, ih, concat_cons, List.length_append, length_bytes]
    rfl

theorem width_mul_length_le (frames : List WireFrame) :
    Header.width * frames.length ≤ (concat frames).length := by
  induction frames with
  | nil => exact Nat.zero_le _
  | cons frame rest ih =>
    have first := frame.width_le_length_bytes
    simp only [List.length_cons, concat_cons, List.length_append, Nat.mul_add]
    omega

/-- Frames as they are written make up a region, provided that each fits. -/
theorem exists_wires {frames : List Frame}
    (short : (frames.flatMap Frame.bytes).length < offsetSpace) :
    ∃ wires : List WireFrame, wires.map toFrame = frames ∧
      concat wires = frames.flatMap Frame.bytes := by
  induction frames with
  | nil => exact ⟨[], rfl, rfl⟩
  | cons frame rest ih =>
    rw [List.flatMap_cons, List.length_append, Frame.length_bytes] at short
    -- No frame is longer than the region, so every size fits in 32 bits.
    obtain ⟨wires, same, bytes⟩ := ih (by omega)
    have fits : frame.payload.length < offsetSpace := by omega
    refine ⟨ofFrame frame fits :: wires, ?_, ?_⟩
    · rw [List.map_cons, same]
      rfl
    · rw [concat_cons, bytes_ofFrame, bytes, List.flatMap_cons]

end WireFrame

namespace Chunk

theorem dropPadding_append {offset size : Nat} {pad rest : Bytes}
    (length : pad.length = Frame.padding size)
    (short : offset + Header.width + size + pad.length < offsetSpace) :
    dropPadding offset size (pad ++ rest) = .ok rest := by
  unfold dropPadding
  unfold Frame.padding at length
  -- The padding is empty or one byte, as the size says.
  split
  next even =>
    have none : pad = [] := List.eq_nil_of_length_eq_zero (length.trans even)
    rw [none, List.nil_append]
  next odd =>
    obtain ⟨byte, rfl⟩ : ∃ byte, pad = [byte] := List.length_eq_one_iff.mp (by omega)
    rw [List.length_singleton] at short
    rw [if_neg (Nat.not_le_of_lt short), List.singleton_append]

/-- A frame is split off the front of its bytes, whatever follows, as long as all of it has offsets.
-/
theorem split_bytes {offset : Nat} {rest : Bytes} (frame : WireFrame)
    (short : offset + (frame.bytes ++ rest).length < offsetSpace) :
    split offset (frame.bytes ++ rest) = .ok (frame.chunkAt offset, rest) := by
  have total := frame.length_bytes
  have length := frame.pad_length
  rw [List.length_append] at short
  have header : Header.split? (frame.bytes ++ rest) =
      some (⟨frame.tag, frame.payload.length⟩, frame.payload ++ (frame.pad ++ rest)) := by
    rw [WireFrame.bytes, List.append_assoc, List.append_assoc]
    exact Header.split?_bytes _ _ frame.fits
  rw [split, if_neg (by rw [List.length_append]; omega), header]
  simp only [takePayload]
  rw [if_neg (by omega), if_neg (by rw [List.length_append]; omega), List.drop_left,
    List.take_left, dropPadding_append length (by omega)]
  rfl

theorem lt_of_split {offset : Nat} {bytes rest : Bytes} {chunk : Chunk}
    (taken : split offset bytes = .ok (chunk, rest)) : offset + bytes.length < offsetSpace := by
  unfold split at taken
  split at taken
  · cases taken
  next short => exact Nat.lt_of_not_le short

/-- A chunk is read exactly if a frame stands at the front and all offsets fit in 32 bits. -/
theorem split_eq_ok_iff {offset : Nat} {bytes rest : Bytes} {chunk : Chunk} :
    split offset bytes = .ok (chunk, rest) ↔ offset + bytes.length < offsetSpace ∧
      ∃ frame : WireFrame, bytes = frame.bytes ++ rest ∧ chunk = frame.chunkAt offset := by
  constructor
  · intro taken
    have short := lt_of_split taken
    obtain ⟨rfl, pad, length, whole⟩ := eq_of_split taken
    -- The payload is part of the region, whose length fits in 32 bits.
    have fits : chunk.payload.length < offsetSpace := by
      have total := congrArg List.length whole
      simp only [List.length_append] at total
      omega
    exact ⟨short, ⟨⟨chunk.tag, chunk.payload⟩, pad, fits, length⟩, whole, rfl⟩
  · rintro ⟨short, frame, rfl, rfl⟩
    exact split_bytes frame short

end Chunk

namespace WireFrame

/-- The header says where a frame ends, so what stands behind it does not matter. -/
theorem append_inj {left right : WireFrame} {rest tail : Bytes}
    (same : left.bytes ++ rest = right.bytes ++ tail) : left = right ∧ rest = tail := by
  simp only [bytes, List.append_assoc] at same
  have headers := congrArg Header.split? same
  rw [Header.split?_bytes _ _ left.fits, Header.split?_bytes _ _ right.fits] at headers
  simp only [Option.some.injEq, Prod.mk.injEq, Header.mk.injEq] at headers
  obtain ⟨⟨tag, size⟩, bodies⟩ := headers
  -- Payloads of one size end at one place, and so do their paddings.
  obtain ⟨payload, ends⟩ := List.append_inj bodies size
  have pads : left.pad.length = right.pad.length := by
    rw [left.pad_length, right.pad_length, size]
  obtain ⟨pad, rest⟩ := List.append_inj ends pads
  exact ⟨ext_frame tag payload pad, rest⟩

/-- Frames that end where no frame stands begin with all frames that can be split off. -/
theorem isPrefix_of_concat {frames others : List WireFrame} {rest tail : Bytes}
    (stuck : ∀ (frame : WireFrame) (behind : Bytes), rest ≠ frame.bytes ++ behind)
    (same : concat frames ++ rest = concat others ++ tail) : others <+: frames := by
  induction others generalizing frames with
  | nil => exact List.nil_prefix
  | cons other others ih =>
    rw [concat_cons, List.append_assoc] at same
    cases frames with
    | nil => exact absurd same (stuck other _)
    | cons frame frames =>
      rw [concat_cons, List.append_assoc] at same
      obtain ⟨rfl, behind⟩ := append_inj same
      exact List.cons_prefix_cons.mpr ⟨rfl, ih behind⟩

theorem nil_ne_bytes_append (frame : WireFrame) (behind : Bytes) :
    ([] : Bytes) ≠ frame.bytes ++ behind := by
  intro empty
  exact frame.bytes_ne_nil (List.append_eq_nil_iff.mp empty.symm).1

/-- A region is a row of frames in one way at most. -/
theorem concat_injective {frames others : List WireFrame} (same : concat frames = concat others) :
    frames = others := by
  -- Nothing is left over on either side, so each list begins with the other.
  have ends : concat frames ++ [] = concat others ++ [] := by rw [same]
  have forward : others <+: frames := isPrefix_of_concat nil_ne_bytes_append ends
  have backward : frames <+: others := isPrefix_of_concat nil_ne_bytes_append ends.symm
  exact backward.eq_of_length_le forward.length_le

theorem length_concat_le_of_isPrefix {frames others : List WireFrame} (front : others <+: frames) :
    (concat others).length ≤ (concat frames).length := by
  obtain ⟨behind, rfl⟩ := front
  rw [concat_append, List.length_append]
  exact Nat.le_add_right _ _

end WireFrame

end Semihosting.Riff
