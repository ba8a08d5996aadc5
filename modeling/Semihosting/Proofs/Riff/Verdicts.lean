import Semihosting.Proofs.Guarded.Chunks

/-!
# Verdicts on chunks and containers

What reading a chunk comes to is settled by how many bytes there are and by the size they declare;
for a container its tag and its form count as well. A verdict says so about bytes at their offsets,
with sums of numbers that have no bound. Main statements: there is a verdict on whatever stands at a
cursor or at the front of a buffer (`Chunk.exists_verdict`, `Container.exists_verdict`), and it is
what a reader answers (`Chunk.readAt_eq_iff`, `Container.read_eq_iff`).
-/
namespace Semihosting.Riff

/-! ### Headers in place -/

def sizeAt (region : Bytes) (offset : Nat) : Nat :=
  Bytes.toNat (region.extract (offset + 4) (offset + Header.width))

theorem length_extract {region : Bytes} {start stop : Nat} (inside : stop ≤ region.length) :
    (region.extract start stop).length = stop - start := by
  rw [List.extract_eq_take_drop, List.length_take, List.length_drop]
  omega

/-- A header is found wherever there are bytes for one. -/
theorem exists_split? {region : Bytes} {offset : Nat}
    (enough : offset + Header.width ≤ region.length) :
    ∃ tag : FourCC, tag.bytes = region.extract offset (offset + 4) ∧
      Header.split? (region.drop offset) =
        some (⟨tag, sizeAt region offset⟩, region.drop (offset + Header.width)) := by
  cases taken : Header.split? (region.drop offset) with
  | none =>
    have few := Header.split?_eq_none_iff.mp taken
    rw [List.length_drop] at few
    omega
  | some pair =>
    obtain ⟨header, rest⟩ := pair
    have front := Header.eq_of_split? taken
    have small := Header.size_lt_of_split? taken
    have behind := Guarded.drop_header taken
    -- The tag and the size are the two halves of the header's bytes.
    have tag : region.extract offset (offset + 4) = header.tag.bytes := by
      rw [List.extract_eq_take_drop, front, Header.bytes, Nat.add_sub_cancel_left,
        List.append_assoc]
      exact List.take_left' header.tag.length_bytes
    have size : region.extract (offset + 4) (offset + Header.width) =
        Bytes.ofNat 4 header.size := by
      rw [List.extract_eq_take_drop, ← List.drop_drop, front, Header.bytes, List.append_assoc,
        List.drop_left' header.tag.length_bytes, Nat.add_sub_add_left]
      exact List.take_left' (Bytes.length_ofNat 4 header.size)
    refine ⟨header.tag, tag.symm, ?_⟩
    rw [sizeAt, size, Bytes.toNat_ofNat, Nat.mod_eq_of_lt (Nat.lt_of_lt_of_eq small (by decide)),
      behind]

namespace Chunk

/-! ### Chunks -/

/-- What stands at a cursor of a region. -/
inductive Verdict (region : Bytes) (cursor : Nat) : Except Fault (Chunk × Nat) → Prop
  | headless : region.length < cursor + Header.width →
      Verdict region cursor (.error (.truncated Header.width (region.length - cursor)))
  | wrapping : cursor + Header.width ≤ region.length →
      offsetSpace ≤ cursor + Header.width + sizeAt region cursor →
      Verdict region cursor (.error (.sizeOverflow cursor (sizeAt region cursor)))
  | overlong : cursor + Header.width ≤ region.length →
      cursor + Header.width + sizeAt region cursor < offsetSpace →
      region.length < cursor + Header.width + sizeAt region cursor →
      Verdict region cursor
        (.error (.oversized (sizeAt region cursor) (region.length - cursor - Header.width)))
  | unpadded : cursor + Header.width + sizeAt region cursor = region.length →
      sizeAt region cursor % 2 = 1 → region.length + 1 < offsetSpace →
      Verdict region cursor (.error (.truncated 1 0))
  /-- The padding byte would stand at the last offset that there is, and end behind it. -/
  | unpaddable : cursor + Header.width + sizeAt region cursor = region.length →
      sizeAt region cursor % 2 = 1 → region.length + 1 = offsetSpace →
      Verdict region cursor (.error (.sizeOverflow cursor (sizeAt region cursor)))
  | chunk {tag : FourCC} : tag.bytes = region.extract cursor (cursor + 4) →
      cursor + Header.width + sizeAt region cursor + sizeAt region cursor % 2 ≤ region.length →
      Verdict region cursor
        (.ok (⟨tag, cursor, region.extract (cursor + Header.width)
            (cursor + Header.width + sizeAt region cursor)⟩,
          cursor + Header.width + sizeAt region cursor + sizeAt region cursor % 2))

section

variable {region : Bytes} {cursor : Nat} {answer : Except Fault (Chunk × Nat)}

/-- Whatever stands at a cursor, there is a verdict on it. -/
theorem exists_verdict (short : region.length < offsetSpace) :
    ∃ answer, Verdict region cursor answer := by
  by_cases headless : region.length < cursor + Header.width
  · exact ⟨_, .headless headless⟩
  have enough := Nat.le_of_not_lt headless
  by_cases wrapping : offsetSpace ≤ cursor + Header.width + sizeAt region cursor
  · exact ⟨_, .wrapping enough wrapping⟩
  by_cases overlong : region.length < cursor + Header.width + sizeAt region cursor
  · exact ⟨_, .overlong enough (Nat.lt_of_not_le wrapping) overlong⟩
  -- The payload is there; what may be missing is its padding.
  by_cases padded :
      cursor + Header.width + sizeAt region cursor + sizeAt region cursor % 2 ≤ region.length
  · obtain ⟨tag, tagged, -⟩ := exists_split? enough
    exact ⟨_, .chunk tagged padded⟩
  · have ends : cursor + Header.width + sizeAt region cursor = region.length := by omega
    have odd : sizeAt region cursor % 2 = 1 := by omega
    by_cases last : region.length + 1 = offsetSpace
    · exact ⟨_, .unpaddable ends odd last⟩
    · exact ⟨_, .unpadded ends odd (by omega)⟩

/-- Where there is a header, reading comes down to taking its payload. -/
theorem readAt_of_header (short : region.length < offsetSpace)
    (enough : cursor + Header.width ≤ region.length) :
    ∃ tag : FourCC, tag.bytes = region.extract cursor (cursor + 4) ∧
      readAt region cursor =
        (takePayload cursor ⟨tag, sizeAt region cursor⟩
          (region.drop (cursor + Header.width))).map fun (chunk, _) => (chunk, chunk.stop) := by
  obtain ⟨tag, tagged, taken⟩ := exists_split? enough
  refine ⟨tag, tagged, ?_⟩
  have inside : ¬offsetSpace ≤ cursor + (region.drop cursor).length := by
    rw [List.length_drop]
    omega
  rw [readAt, split, if_neg inside, taken]

theorem takePayload_of_padded {tag : FourCC} {size : Nat} (short : region.length < offsetSpace)
    (padded : cursor + Header.width + size + size % 2 ≤ region.length) :
    (takePayload cursor ⟨tag, size⟩ (region.drop (cursor + Header.width))).map
        (fun (chunk, _) => (chunk, chunk.stop)) =
      .ok (⟨tag, cursor, region.extract (cursor + Header.width) (cursor + Header.width + size)⟩,
        cursor + Header.width + size + size % 2) := by
  have payload : (region.drop (cursor + Header.width)).take size =
      region.extract (cursor + Header.width) (cursor + Header.width + size) := by
    rw [List.extract_eq_take_drop, Nat.add_sub_cancel_left]
  -- The padding is the byte behind the payload, or nothing.
  obtain ⟨pad, rest, length, behind⟩ : ∃ pad rest : Bytes, pad.length = Frame.padding size ∧
      (region.drop (cursor + Header.width)).drop size = pad ++ rest := by
    refine ⟨_, _, ?_, (List.take_append_drop (Frame.padding size) _).symm⟩
    rw [List.length_take, List.length_drop, List.length_drop, Frame.padding]
    omega
  have dropped : dropPadding cursor size (pad ++ rest) = .ok rest := by
    apply dropPadding_append length
    rw [length, Frame.padding]
    omega
  have stop : Chunk.stop ⟨tag, cursor, region.extract (cursor + Header.width)
      (cursor + Header.width + size)⟩ = cursor + Header.width + size + size % 2 := by
    rw [Chunk.stop, Chunk.size, length_extract (by omega), Nat.add_sub_cancel_left]
    rfl
  have fits : ¬offsetSpace ≤ cursor + Header.width + size := by omega
  have enough : ¬(region.drop (cursor + Header.width)).length < size := by
    rw [List.length_drop]
    omega
  simp only [takePayload, if_neg fits, if_neg enough, behind, payload, dropped, Except.map, stop]

/-- The verdict on what stands at a cursor is what reading there answers. -/
theorem readAt_of_verdict (short : region.length < offsetSpace) (narrow : cursor < offsetSpace)
    (verdict : Verdict region cursor answer) : readAt region cursor = answer := by
  -- The checks come in the order of the verdicts, so each case refutes those before its own.
  have behind : (region.drop (cursor + Header.width)).length =
      region.length - cursor - Header.width := by
    rw [List.length_drop, Nat.sub_add_eq]
  cases verdict with
  | headless few =>
    have none : Header.split? (region.drop cursor) = none := by
      rw [Header.split?_eq_none_iff, List.length_drop]
      simp only [Header.width] at few ⊢
      omega
    have inside : ¬offsetSpace ≤ cursor + (region.length - cursor) := by omega
    rw [readAt, split, List.length_drop, if_neg inside, none]
    rfl
  | wrapping enough wraps =>
    obtain ⟨tag, -, read⟩ := readAt_of_header short enough
    simp only [read, takePayload, if_pos wraps]
    rfl
  | overlong enough fits long =>
    obtain ⟨tag, -, read⟩ := readAt_of_header short enough
    have few : region.length - cursor - Header.width < sizeAt region cursor := by omega
    simp only [read, takePayload, if_neg (Nat.not_le_of_lt fits), behind, if_pos few]
    rfl
  | unpadded ends odd room =>
    have enough : cursor + Header.width ≤ region.length := by omega
    obtain ⟨tag, -, read⟩ := readAt_of_header short enough
    have fits : ¬offsetSpace ≤ cursor + Header.width + sizeAt region cursor := by omega
    have whole : ¬(region.drop (cursor + Header.width)).length < sizeAt region cursor := by omega
    have used : (region.drop (cursor + Header.width)).drop (sizeAt region cursor) = [] := by
      rw [List.drop_drop, ends, List.drop_length]
    have padding : dropPadding cursor (sizeAt region cursor) [] = .error (.truncated 1 0) := by
      rw [dropPadding, if_neg (by omega), if_neg (by omega)]
    simp only [read, takePayload, if_neg fits, if_neg whole, used, padding]
    rfl
  | unpaddable ends odd last =>
    have enough : cursor + Header.width ≤ region.length := by omega
    obtain ⟨tag, -, read⟩ := readAt_of_header short enough
    have fits : ¬offsetSpace ≤ cursor + Header.width + sizeAt region cursor := by omega
    have whole : ¬(region.drop (cursor + Header.width)).length < sizeAt region cursor := by omega
    have padding (rest : Bytes) : dropPadding cursor (sizeAt region cursor) rest =
        .error (.sizeOverflow cursor (sizeAt region cursor)) := by
      unfold dropPadding
      rw [if_neg (by omega), if_pos (by omega)]
    simp only [read, takePayload, if_neg fits, if_neg whole, padding]
    rfl
  | @chunk tag tagged padded =>
    have enough : cursor + Header.width ≤ region.length := by omega
    obtain ⟨found, tagged', read⟩ := readAt_of_header short enough
    obtain rfl : found = tag := FourCC.bytes_injective (tagged'.trans tagged.symm)
    rw [read]
    exact takePayload_of_padded short padded

theorem readAt_eq_iff (short : region.length < offsetSpace) (narrow : cursor < offsetSpace) :
    readAt region cursor = answer ↔ Verdict region cursor answer := by
  constructor
  · rintro rfl
    obtain ⟨answer, verdict⟩ := exists_verdict short
    rw [readAt_of_verdict short narrow verdict]
    exact verdict
  · exact readAt_of_verdict short narrow

/-- Where no chunk can be split off, the verdict is the fault. -/
theorem split_eq_error_iff {fault : Fault} (short : region.length < offsetSpace)
    (narrow : cursor < offsetSpace) :
    split cursor (region.drop cursor) = .error fault ↔ Verdict region cursor (.error fault) := by
  rw [← readAt_eq_iff short narrow, readAt, map_eq_error_iff]

theorem Verdict.isSizeViolation {fault : Fault} (verdict : Verdict region cursor (.error fault)) :
    fault.isSizeViolation = true := by
  cases verdict <;> rfl

theorem Verdict.next_le {chunk : Chunk} {next : Nat}
    (verdict : Verdict region cursor (.ok (chunk, next))) : next ≤ region.length := by
  cases verdict with
  | chunk _ padded => exact padded

end

/-- Reading at a cursor settles, by the bytes that are left and the size that they declare, what
stands there. No sum leaves its word and no fallback is taken on the way, the next cursor is inside
the region, and every fault is about sizes. -/
theorem reading_is_settled_by_sizes {region : Bytes} {cursor : Nat}
    (short : region.length < offsetSpace) (narrow : cursor < offsetSpace) :
    (∀ answer, readAt region cursor = answer ↔ Verdict region cursor answer) ∧
    Guarded.readChunk region cursor = Guarded.plain (readAt region cursor) ∧
    (∀ chunk next, readAt region cursor = .ok (chunk, next) → next ≤ region.length) ∧
    ∀ fault, readAt region cursor = .error fault →
      fault.isSizeViolation = true ∧ fault.code = .malformedRiff := by
  have settled (answer : Except Fault (Chunk × Nat)) :
      readAt region cursor = answer ↔ Verdict region cursor answer := readAt_eq_iff short narrow
  refine ⟨settled, Guarded.readChunk_eq narrow, ?_, ?_⟩
  · intro chunk next read
    exact ((settled _).mp read).next_le
  · intro fault failed
    have size := ((settled _).mp failed).isSizeViolation
    exact ⟨size, Fault.code_of_isSizeViolation size⟩

/-- A header and as many bytes as it declares, without the padding that they may need. -/
def filled (size : Nat) : Bytes := (Header.mk .data size).bytes ++ List.replicate size 0

theorem length_filled (size : Nat) : (filled size).length = Header.width + size := by
  rw [filled, List.length_append, Header.length_bytes, List.length_replicate]

theorem sizeAt_filled {size : Nat} (small : size < offsetSpace) :
    sizeAt (filled size) 0 = size := by
  have enough : 0 + Header.width ≤ (filled size).length := by
    rw [length_filled]
    omega
  obtain ⟨tag, -, found⟩ := exists_split? enough
  have front : Header.split? (filled size) = some (⟨.data, size⟩, List.replicate size 0) :=
    Header.split?_bytes _ _ small
  rw [List.drop_zero, front] at found
  exact (congrArg Header.size (Prod.mk.inj (Option.some.inj found)).1).symm

/-- The longest region there is, with no offset left for the padding of its chunk. -/
theorem reading_of_filled_region :
    (filled 4294967287).length < offsetSpace ∧ 0 < offsetSpace ∧
    readAt (filled 4294967287) 0 = .error (.sizeOverflow 0 4294967287) ∧
    Guarded.readChunk (filled 4294967287) 0 = .error (.refused (.sizeOverflow 0 4294967287)) := by
  -- The region ends at the last offset, so its padding byte would have none.
  have length : (filled 4294967287).length + 1 = offsetSpace := by
    rw [length_filled]
    rfl
  have size : sizeAt (filled 4294967287) 0 = 4294967287 := sizeAt_filled (by decide)
  have short : (filled 4294967287).length < offsetSpace := by omega
  have narrow : 0 < offsetSpace := by decide
  obtain ⟨settled, guarded, -⟩ := reading_is_settled_by_sizes short narrow
  have read : readAt (filled 4294967287) 0 = .error (.sizeOverflow 0 4294967287) := by
    have ends : 0 + Header.width + sizeAt (filled 4294967287) 0 = (filled 4294967287).length := by
      rw [size, length_filled, Nat.zero_add]
    have verdict := Verdict.unpaddable ends (by rw [size]) length
    rw [size] at verdict
    exact (settled _).mpr verdict
  rw [read] at guarded
  exact ⟨short, narrow, read, guarded⟩

end Chunk

namespace Container

/-! ### Containers -/

/-- A buffer opens with the header of a container. -/
structure Opens (buffer : Bytes) : Prop where
  enough : Header.width ≤ buffer.length
  magic : buffer.extract 0 4 = FourCC.riff.bytes

/-- What stands at the front of a buffer. -/
inductive Verdict (buffer : Bytes) : Except Fault Container → Prop
  | headless : buffer.length < Header.width →
      Verdict buffer (.error (.truncated headerWidth buffer.length))
  | foreign {tag : FourCC} : Header.width ≤ buffer.length → tag.bytes = buffer.extract 0 4 →
      tag ≠ .riff → Verdict buffer (.error (.badMagic tag))
  | overlong : Opens buffer → buffer.length - Header.width < sizeAt buffer 0 →
      Verdict buffer (.error (.oversized (sizeAt buffer 0) (buffer.length - Header.width)))
  | formless : Opens buffer → sizeAt buffer 0 ≤ buffer.length - Header.width →
      sizeAt buffer 0 < formWidth →
      Verdict buffer (.error (.shortPayload .riff formWidth (sizeAt buffer 0)))
  | misformed {form : FourCC} : Opens buffer → sizeAt buffer 0 ≤ buffer.length - Header.width →
      formWidth ≤ sizeAt buffer 0 → form.bytes = buffer.extract Header.width headerWidth →
      form ≠ .semi → Verdict buffer (.error (.badForm form))
  | container : Opens buffer → sizeAt buffer 0 ≤ buffer.length - Header.width →
      formWidth ≤ sizeAt buffer 0 → FourCC.semi.bytes = buffer.extract Header.width headerWidth →
      Verdict buffer (.ok ⟨sizeAt buffer 0,
        buffer.extract headerWidth (Header.width + sizeAt buffer 0)⟩)

section

variable {buffer : Bytes} {answer : Except Fault Container}

/-- A buffer of enough bytes has a header at its front. -/
theorem exists_header (enough : Header.width ≤ buffer.length) :
    ∃ tag : FourCC, tag.bytes = buffer.extract 0 4 ∧
      Header.split? buffer = some (⟨tag, sizeAt buffer 0⟩, buffer.drop Header.width) := by
  have start : 0 + Header.width ≤ buffer.length := by rwa [Nat.zero_add]
  obtain ⟨tag, tagged, taken⟩ := exists_split? start
  rw [List.drop_zero, Nat.zero_add] at taken
  exact ⟨tag, tagged, taken⟩

theorem Opens.split? (opens : Opens buffer) :
    Header.split? buffer = some (⟨.riff, sizeAt buffer 0⟩, buffer.drop Header.width) := by
  obtain ⟨tag, tagged, taken⟩ := exists_header opens.enough
  obtain rfl : tag = .riff := FourCC.bytes_injective (tagged.trans opens.magic)
  exact taken

/-- The form stands behind a header whose size leaves room for it. -/
theorem exists_form (formed : formWidth ≤ sizeAt buffer 0)
    (inside : sizeAt buffer 0 ≤ buffer.length - Header.width) :
    ∃ form : FourCC, form.bytes = buffer.extract Header.width headerWidth ∧
      splitForm? (buffer.drop Header.width) = some (form, buffer.drop headerWidth) := by
  have long : formWidth ≤ (buffer.drop Header.width).length := by
    rw [List.length_drop]
    omega
  obtain ⟨form, region, taken⟩ := Guarded.exists_splitForm? long
  have front := eq_of_splitForm? taken
  refine ⟨form, ?_, ?_⟩
  · rw [List.extract_eq_take_drop, front]
    exact (List.take_left' form.length_bytes).symm
  · rw [taken, headerWidth, ← List.drop_drop, front]
    exact congrArg (fun region => some (form, region)) (List.drop_left' form.length_bytes).symm

/-- Every buffer has a verdict. -/
theorem exists_verdict (buffer : Bytes) : ∃ answer, Verdict buffer answer := by
  by_cases headless : buffer.length < Header.width
  · exact ⟨_, .headless headless⟩
  have enough := Nat.le_of_not_lt headless
  obtain ⟨tag, tagged, -⟩ := exists_header enough
  by_cases magic : tag = .riff
  · have opens : Opens buffer := ⟨enough, by rw [← magic, tagged]⟩
    by_cases overlong : buffer.length - Header.width < sizeAt buffer 0
    · exact ⟨_, .overlong opens overlong⟩
    have inside := Nat.le_of_not_lt overlong
    by_cases formless : sizeAt buffer 0 < formWidth
    · exact ⟨_, .formless opens inside formless⟩
    -- Both checks of the size passed, so there is a form to be judged.
    have formed := Nat.le_of_not_lt formless
    obtain ⟨form, found, -⟩ := exists_form formed inside
    by_cases semi : form = .semi
    · exact ⟨_, .container opens inside formed (by rw [← semi, found])⟩
    · exact ⟨_, .misformed opens inside formed found semi⟩
  · exact ⟨_, .foreign enough tagged magic⟩

/-- The verdict on what stands at the front of a buffer is what reading it answers. -/
theorem read_of_verdict (verdict : Verdict buffer answer) : read buffer = answer := by
  cases verdict with
  | headless few => rw [read, Header.split?_eq_none_iff.mpr few]
  | @foreign tag enough tagged magic =>
    obtain ⟨found, tagged', taken⟩ := exists_header enough
    -- The tag is told from its bytes, so the one that is found is the one of the verdict.
    obtain rfl : found = tag := FourCC.bytes_injective (tagged'.trans tagged.symm)
    rw [read, taken]
    exact if_pos magic
  | overlong opens long =>
    rw [read, opens.split?]
    simp only [ne_eq, not_true_eq_false, if_false, List.length_drop, if_pos long]
  | formless opens inside short =>
    rw [read, opens.split?]
    simp only [ne_eq, not_true_eq_false, if_false, List.length_drop,
      if_neg (Nat.not_lt_of_le inside), if_pos short]
  | @misformed form opens inside formed named foreign =>
    obtain ⟨found, named', taken⟩ := exists_form formed inside
    obtain rfl : found = form := FourCC.bytes_injective (named'.trans named.symm)
    rw [read, opens.split?]
    simp only [ne_eq, not_true_eq_false, if_false, List.length_drop,
      if_neg (Nat.not_lt_of_le inside), if_neg (Nat.not_lt_of_le formed), taken]
    exact if_pos foreign
  | container opens inside formed named =>
    obtain ⟨found, named', taken⟩ := exists_form formed inside
    obtain rfl : found = .semi := FourCC.bytes_injective (named'.trans named.symm)
    have width : Header.width + sizeAt buffer 0 - headerWidth = sizeAt buffer 0 - formWidth :=
      Nat.add_sub_add_left Header.width _ formWidth
    rw [read, opens.split?]
    simp only [ne_eq, not_true_eq_false, if_false, List.length_drop,
      if_neg (Nat.not_lt_of_le inside), if_neg (Nat.not_lt_of_le formed), taken,
      List.extract_eq_take_drop, width]

theorem read_eq_iff : read buffer = answer ↔ Verdict buffer answer := by
  constructor
  · rintro rfl
    obtain ⟨answer, verdict⟩ := exists_verdict buffer
    rw [read_of_verdict verdict]
    exact verdict
  · exact read_of_verdict

end

/-! ### Containers that were written -/

/-- A container of any form is read for its form, whatever follows it. -/
theorem read_container_append {writer : Writer} {form : FourCC} {bytes : Bytes} (rest : Bytes)
    (closed : writer.container form = .ok bytes) :
    read (bytes ++ rest) =
      if form = .semi then .ok ⟨writer.length + formWidth, writer.bytes⟩
      else .error (.badForm form) := by
  unfold Writer.container at closed
  split at closed
  · cases closed
  next fits =>
    cases closed
    exact read_enclosed form rest (Nat.lt_of_not_le fits)

/-- A buffer is judged by the bytes that are there, its magic, the size it declares and its form, in
this order, and no fallback is ever taken. What a writer closed into a container of any form is read
back whatever follows it, unless the form is not that of a message. -/
theorem container_is_judged_in_order :
    (∀ buffer answer, read buffer = answer ↔ Verdict buffer answer) ∧
    (∀ buffer, Guarded.readContainer buffer = Guarded.plain (read buffer) ∧
      ∀ fault, Guarded.readContainer buffer ≠ .error (.fallback fault)) ∧
    ∀ (writer : Writer) (form : FourCC) (rest : Bytes), writer.length + formWidth < offsetSpace →
      ∃ bytes, writer.container form = .ok bytes ∧
        read (bytes ++ rest) =
          if form = .semi then .ok ⟨writer.length + formWidth, writer.bytes⟩
          else .error (.badForm form) := by
  refine ⟨fun buffer answer => read_eq_iff, ?_, ?_⟩
  · intro buffer
    have guarded := Guarded.readContainer_eq buffer
    refine ⟨guarded, ?_⟩
    rw [guarded]
    exact Guarded.plain_ne_fallback (read buffer)
  · intro writer form rest small
    obtain ⟨bytes, closed⟩ : ∃ bytes, writer.container form = .ok bytes :=
      ⟨_, Writer.container_eq_ok small⟩
    exact ⟨bytes, closed, read_container_append rest closed⟩

/-- A region of one padded frame, closed with another form and with the form of messages. -/
theorem containers_of_padded_frame :
    Writer.length ⟨(Frame.mk .data [7]).bytes⟩ + formWidth < offsetSpace ∧
    (∃ bytes, Writer.container ⟨(Frame.mk .data [7]).bytes⟩ .data = .ok bytes ∧
      read (bytes ++ [0xFF]) = .error (.badForm .data)) ∧
    ∃ bytes, Writer.container ⟨(Frame.mk .data [7]).bytes⟩ .semi = .ok bytes ∧
      read (bytes ++ [0xFF]) = .ok ⟨14, (Frame.mk .data [7]).bytes⟩ := by
  have small : Writer.length ⟨(Frame.mk .data [7]).bytes⟩ + formWidth < offsetSpace := by decide
  obtain ⟨-, -, closed⟩ := container_is_judged_in_order
  refine ⟨small, ?_, ?_⟩
  · obtain ⟨bytes, written, found⟩ := closed _ .data [0xFF] small
    exact ⟨bytes, written, found⟩
  · obtain ⟨bytes, written, found⟩ := closed _ .semi [0xFF] small
    exact ⟨bytes, written, found⟩

end Container

end Semihosting.Riff
