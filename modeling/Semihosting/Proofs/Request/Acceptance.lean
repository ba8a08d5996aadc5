import Mathlib.Data.List.Induction
import Semihosting.Proofs.Message.Capacity
import Semihosting.Proofs.Riff.Verdicts

/-!
# Which calls are read

A call is a header and frames. The frames go together if every parameter list is a whole number of
slots, there are no more slots than may be, and there is one data block at most. What they spell and
what is wrong with them is said of the bytes, not of how these are read. Main statements: frames go
together, or one of them is the first that clashes with those before it (`exists_clash`); a call
that begins with frames that go together is read from what these make up on (`decode_of_begins`);
and a call is read as what it spells (`decode_eq_ok_iff_spells`) or refused for what is wrong with
it first (`decode_eq_error_iff_refused`).
-/
namespace Semihosting.Request

open Riff (Chunk Frame Walk WireFrame length_extract offsetSpace)
open Riff.WireFrame (concat)

/-! ### Slots in their place -/

/-- Behind a list that is whole, the slots of the next one begin. -/
theorem slots_append_of_whole {width : Nat} {front : Bytes} (positive : 0 < width)
    (whole : front.length % width = 0) (back : Bytes) :
    slots width (front ++ back) = slots width front ++ slots width back := by
  fun_induction slots width front with
  | case1 front few =>
    have short : front.length < width := few.resolve_left (Nat.ne_of_gt positive)
    rw [Nat.mod_eq_of_lt short] at whole
    rw [List.eq_nil_of_length_eq_zero whole]
    rfl
  | case2 front more ih =>
    have enough : width ≤ front.length := by omega
    have full : (front.take width).length = width := List.length_take_of_le enough
    have rest : (front.drop width).length % width = 0 := by
      rw [List.length_drop, ← Nat.mod_eq_sub_mod enough, whole]
    have split : front ++ back = front.take width ++ (front.drop width ++ back) := by
      rw [← List.append_assoc, List.take_append_drop]
    rw [split, slots_append positive full, ih rest, List.cons_append]

/-- The slots stand one behind another without a gap. -/
theorem getElem_slots {width index : Nat} {bytes : Bytes}
    (bound : index < (slots width bytes).length) :
    (slots width bytes)[index] = bytes.extract (width * index) (width * index + width) := by
  fun_induction slots width bytes generalizing index with
  | case1 => exact absurd bound (Nat.not_lt_zero index)
  | case2 bytes more ih =>
    rw [List.extract_eq_take_drop, Nat.add_sub_cancel_left]
    cases index with
    | zero => rw [List.getElem_cons_zero, Nat.mul_zero, List.drop_zero]
    | succ index =>
      rw [List.getElem_cons_succ, ih, List.extract_eq_take_drop, Nat.add_sub_cancel_left,
        List.drop_drop, Nat.mul_succ, Nat.add_comm width]

/-- Each parameter is the number in its slot. -/
theorem getElem_readSlots {config : Configuration} {bytes : Bytes} {index : Nat}
    (bound : index < (readSlots config bytes).length) :
    (readSlots config bytes)[index].width = config.slotWidth ∧
    (readSlots config bytes)[index].raw = config.order.read (bytes.extract
      (config.slotWidth * index) (config.slotWidth * index + config.slotWidth)) := by
  have room : config.slotWidth * index + config.slotWidth ≤ bytes.length := by
    rw [length_readSlots] at bound
    have room := (Nat.le_div_iff_mul_le config.slotWidth_pos).mp bound
    rwa [Nat.succ_mul, Nat.mul_comm] at room
  have length : (bytes.extract (config.slotWidth * index)
      (config.slotWidth * index + config.slotWidth)).length = config.slotWidth := by
    rw [length_extract room, Nat.add_sub_cancel_left]
  -- A slot has at most eight bytes, so its number is read without loss.
  have fits := config.order.read_lt_of_length (length ▸ config.slotWidth_le)
  rw [length] at fits
  refine ⟨width_of_mem_readSlots (List.getElem_mem bound), ?_⟩
  simp only [readSlots, List.getElem_map, getElem_slots]
  exact raw_ofNat_slotWidth fits

/-! ### What frames spell -/

def opcodeOf (config : Configuration) (header : Bytes) : Nat :=
  config.order.read (header.take config.intSize.bytes)

/-- The bytes of a frame that belong to slots. -/
def slotBytesOf (frame : WireFrame) : Bytes :=
  if frame.tag = .parm then frame.payload else []

/-- The bytes in the parameter lists among frames, as one list. -/
def slotStream (frames : List WireFrame) : Bytes := frames.flatMap slotBytesOf

def firstBlock (frames : List WireFrame) : Option Bytes :=
  (frames.find? fun frame => frame.tag = .data).map fun frame => frame.payload

/-- A request is what a header and the frames behind it spell. -/
structure Spells (config : Configuration) (header : Bytes) (frames : List WireFrame)
    (request : Request) : Prop where
  opcode : request.opcode.toNat = opcodeOf config header
  /-- The slots fill the parameter lists. -/
  filled : config.slotWidth * request.parameters.length = (slotStream frames).length
  slots : ∀ (index : Nat) (bound : index < request.parameters.length),
    request.parameters[index].width = config.slotWidth ∧
    request.parameters[index].raw = config.order.read ((slotStream frames).extract
      (config.slotWidth * index) (config.slotWidth * index + config.slotWidth))
  data : request.data = firstBlock frames

/-- Frames that go together inside a call. -/
structure Consistent (config : Configuration) (limits : Limits) (frames : List WireFrame) :
    Prop where
  whole : ∀ frame ∈ frames, frame.tag = .parm → frame.payload.length % config.slotWidth = 0
  counted : slotCount config frames ≤ limits.maxParameters.toNat
  single : (frames.countP fun frame => frame.tag = .data) ≤ 1

/-- What keeps a frame from going together with those before it. -/
inductive Clashes (config : Configuration) (limits : Limits) (before : List WireFrame)
    (frame : WireFrame) : Fault → Prop
  | ragged : frame.tag = .parm → frame.payload.length % config.slotWidth ≠ 0 →
      Clashes config limits before frame (.raggedParameters frame.payload.length config.slotWidth)
  | crowded : frame.tag = .parm → frame.payload.length % config.slotWidth = 0 →
      limits.maxParameters.toNat < slotCount config (before ++ [frame]) →
      Clashes config limits before frame (.limitExceeded .parameters limits.maxParameters.toNat)
  | repeated : frame.tag = .data → (∃ other ∈ before, other.tag = .data) →
      Clashes config limits before frame .duplicateData

/-- A call opens with a header, whose opcode has 32 bits, and frames that go together. -/
structure Begins (config : Configuration) (limits : Limits) (payload header : Bytes)
    (frames : List WireFrame) (rest : Bytes) : Prop where
  width : header.length = config.callHeaderWidth
  split : payload = header ++ (concat frames ++ rest)
  opcode : opcodeOf config header < UInt32.size
  chunks : frames.length ≤ limits.maxChunks.toNat
  consistent : Consistent config limits frames

/-- Why a call is refused. Behind the header and the opcode in it, this is the first place at which
no frame may stand or none does, or the first frame that clashes with those before it. -/
inductive Refused (config : Configuration) (limits : Limits) (payload : Bytes) : Fault → Prop
  | headless : payload.length < config.callHeaderWidth →
      Refused config limits payload (.shortPayload .call config.callHeaderWidth payload.length)
  | opcode {header region : Bytes} : header.length = config.callHeaderWidth →
      payload = header ++ region → UInt32.size ≤ opcodeOf config header →
      Refused config limits payload (.invalidField .opcode (opcodeOf config header))
  | full {header rest : Bytes} {before : List WireFrame} :
      Begins config limits payload header before rest → rest ≠ [] →
      before.length = limits.maxChunks.toNat →
      Refused config limits payload (.limitExceeded .chunks limits.maxChunks.toNat)
  | broken {header rest : Bytes} {before : List WireFrame} {fault : Fault} :
      Begins config limits payload header before rest → rest ≠ [] →
      before.length < limits.maxChunks.toNat →
      Chunk.Verdict (concat before ++ rest) (concat before).length (.error fault) →
      Refused config limits payload fault
  | clash {header rest : Bytes} {before : List WireFrame} {frame : WireFrame} {fault : Fault} :
      Begins config limits payload header before (frame.bytes ++ rest) →
      before.length < limits.maxChunks.toNat → Clashes config limits before frame fault →
      Refused config limits payload fault

variable {config : Configuration} {limits : Limits}

/-! ### Frames that go together -/

theorem slotStream_snoc (before : List WireFrame) (frame : WireFrame) :
    slotStream (before ++ [frame]) = slotStream before ++ slotBytesOf frame := by
  rw [slotStream, List.flatMap_append, List.flatMap_singleton, slotStream]

theorem slotCount_append (config : Configuration) (front back : List WireFrame) :
    slotCount config (front ++ back) = slotCount config front + slotCount config back := by
  induction front with
  | nil => exact (Nat.zero_add _).symm
  | cons frame rest ih => rw [List.cons_append, slotCount_cons, ih, slotCount_cons, Nat.add_assoc]

theorem slotCount_snoc (config : Configuration) (before : List WireFrame) (frame : WireFrame) :
    slotCount config (before ++ [frame]) = slotCount config before + slotsOf config frame := by
  rw [slotCount_append, slotCount_cons]
  rfl

theorem consistent_nil (config : Configuration) (limits : Limits) :
    Consistent config limits [] where
  whole _ member := absurd member List.not_mem_nil
  counted := Nat.zero_le _
  single := Nat.zero_le _

theorem Consistent.of_append {front back : List WireFrame}
    (consistent : Consistent config limits (front ++ back)) : Consistent config limits front where
  whole frame member := consistent.whole frame (List.mem_append_left back member)
  counted := by
    have counted := consistent.counted
    rw [slotCount_append] at counted
    omega
  single := by
    have single := consistent.single
    rw [List.countP_append] at single
    omega

/-- A whole list is as long as its slots together. -/
theorem length_slotBytesOf {frame : WireFrame}
    (whole : frame.tag = .parm → frame.payload.length % config.slotWidth = 0) :
    (slotBytesOf frame).length = config.slotWidth * slotsOf config frame := by
  by_cases tag : frame.tag = .parm
  · rw [slotBytesOf, slotsOf, if_pos tag, if_pos tag,
      Nat.mul_div_cancel' (Nat.dvd_of_mod_eq_zero (whole tag))]
  · rw [slotBytesOf, slotsOf, if_neg tag, if_neg tag]
    rfl

theorem length_slotStream {frames : List WireFrame}
    (whole : ∀ frame ∈ frames, frame.tag = .parm → frame.payload.length % config.slotWidth = 0) :
    (slotStream frames).length = config.slotWidth * slotCount config frames := by
  induction frames with
  | nil => rfl
  | cons frame rest ih =>
    obtain ⟨first, others⟩ := List.forall_mem_cons.mp whole
    rw [slotStream, List.flatMap_cons, List.length_append, length_slotBytesOf first, ← slotStream,
      ih others, slotCount_cons, Nat.mul_add]

/-- Behind frames that go together a frame goes with them, or clashes with them. -/
theorem consistent_or_clashes {before : List WireFrame}
    (consistent : Consistent config limits before) (frame : WireFrame) :
    Consistent config limits (before ++ [frame]) ∨
      ∃ fault, Clashes config limits before frame fault := by
  -- The clashes are ruled out in the order in which a reader meets them.
  by_cases ragged : frame.tag = .parm ∧ frame.payload.length % config.slotWidth ≠ 0
  · exact Or.inr ⟨_, .ragged ragged.1 ragged.2⟩
  have whole (tag : frame.tag = .parm) : frame.payload.length % config.slotWidth = 0 :=
    Decidable.not_not.mp fun left => ragged ⟨tag, left⟩
  by_cases crowded : frame.tag = .parm ∧
      limits.maxParameters.toNat < slotCount config (before ++ [frame])
  · exact Or.inr ⟨_, .crowded crowded.1 (whole crowded.1) crowded.2⟩
  by_cases repeated : frame.tag = .data ∧ ∃ other ∈ before, other.tag = .data
  · exact Or.inr ⟨_, .repeated repeated.1 repeated.2⟩
  refine Or.inl ⟨?_, ?_, ?_⟩
  · intro other member tag
    rcases List.mem_append.mp member with held | last
    · exact consistent.whole other held tag
    · obtain rfl := List.mem_singleton.mp last
      exact whole tag
  · have counted := consistent.counted
    rw [slotCount_snoc] at crowded ⊢
    by_cases tag : frame.tag = .parm
    · exact Nat.le_of_not_lt fun more => crowded ⟨tag, more⟩
    · rw [slotsOf, if_neg tag]
      exact counted
  · have single := consistent.single
    rw [List.countP_append, List.countP_singleton]
    by_cases tag : frame.tag = .data
    · -- No frame before a first data block is one.
      have none : (before.countP fun frame => frame.tag = .data) = 0 := by
        apply List.countP_eq_zero.mpr
        intro other member same
        exact repeated ⟨tag, other, member, of_decide_eq_true same⟩
      rw [none]
      split <;> decide
    · rw [if_neg (by simpa using tag)]
      exact single

/-- Frames go together, or one of them is the first that clashes with those before it. -/
theorem exists_clash (config : Configuration) (limits : Limits) (frames : List WireFrame) :
    Consistent config limits frames ∨ ∃ before frame behind fault,
      frames = before ++ frame :: behind ∧ Consistent config limits before ∧
        Clashes config limits before frame fault := by
  induction frames using List.reverseRecOn with
  | nil => exact Or.inl (consistent_nil config limits)
  | append_singleton front last ih =>
    rcases ih with consistent | ⟨before, frame, behind, fault, rfl, consistent, clashes⟩
    · rcases consistent_or_clashes consistent last with together | ⟨fault, clashes⟩
      · exact Or.inl together
      · exact Or.inr ⟨front, last, [], fault, rfl, consistent, clashes⟩
    · refine Or.inr ⟨before, frame, behind ++ [last], fault, ?_, consistent, clashes⟩
      rw [List.append_assoc, List.cons_append]

/-! ### What is gathered from frames -/

/-- The request that the frames of a call make up. -/
def gathered (config : Configuration) (opcode : UInt32) (frames : List WireFrame) : Request where
  opcode := opcode
  parameters := readSlots config (slotStream frames)
  data := firstBlock frames

theorem gathered_nil (config : Configuration) (opcode : UInt32) :
    gathered config opcode [] = bare opcode := by
  rw [gathered, slotStream, List.flatMap_nil, readSlots, slots_nil]
  rfl

theorem Consistent.length_gathered {frames : List WireFrame}
    (consistent : Consistent config limits frames) (opcode : UInt32) :
    (gathered config opcode frames).parameters.length = slotCount config frames := by
  rw [gathered, length_readSlots, length_slotStream consistent.whole,
    Nat.mul_div_cancel_left _ config.slotWidth_pos]

theorem firstBlock_snoc (before : List WireFrame) (frame : WireFrame) :
    firstBlock (before ++ [frame]) =
      (firstBlock before).or (if frame.tag = .data then some frame.payload else none) := by
  rw [firstBlock, List.find?_append, List.find?_singleton, firstBlock]
  by_cases tag : frame.tag = .data
  · simp [tag]
  · simp [tag]

theorem firstBlock_eq_none_iff {frames : List WireFrame} :
    firstBlock frames = none ↔ ∀ frame ∈ frames, frame.tag ≠ .data := by
  rw [firstBlock, Option.map_eq_none_iff, List.find?_eq_none]
  simp only [decide_eq_true_eq, ne_eq]

/-- A second block would not go together with the first. -/
theorem Consistent.vacant {before : List WireFrame} {frame : WireFrame}
    (consistent : Consistent config limits (before ++ [frame])) (data : frame.tag = .data) :
    firstBlock before = none := by
  have single := consistent.single
  rw [List.countP_append, List.countP_singleton, if_pos (by simpa using data)] at single
  have none := List.countP_eq_zero.mp (Nat.le_zero.mp (Nat.le_of_succ_le_succ single))
  apply firstBlock_eq_none_iff.mpr
  intro other member
  simpa using none other member

theorem gathered_snoc_parameters {before : List WireFrame} {frame : WireFrame} (opcode : UInt32)
    (front : (slotStream before).length % config.slotWidth = 0) (parameters : frame.tag = .parm) :
    gathered config opcode (before ++ [frame]) =
      { gathered config opcode before with
        parameters := (gathered config opcode before).parameters ++
          readSlots config frame.payload } := by
  have notData : frame.tag ≠ .data := by rw [parameters]; decide
  simp only [gathered, slotStream_snoc, slotBytesOf, if_pos parameters, readSlots,
    slots_append_of_whole config.slotWidth_pos front, List.map_append, firstBlock_snoc,
    if_neg notData, Option.or_none]

theorem gathered_snoc {before : List WireFrame} {frame : WireFrame} (opcode : UInt32)
    (notParameters : frame.tag ≠ .parm) :
    gathered config opcode (before ++ [frame]) =
      { gathered config opcode before with
        data := (firstBlock before).or
          (if frame.tag = .data then some frame.payload else none) } := by
  simp only [gathered, slotStream_snoc, slotBytesOf, if_neg notParameters, List.append_nil,
    firstBlock_snoc]

/-- A frame that goes with those before it adds its slots or its block to what they make up. -/
theorem absorbs_gathered {before : List WireFrame} {frame : WireFrame} (opcode : UInt32)
    (consistent : Consistent config limits (before ++ [frame])) :
    Absorbs config limits (gathered config opcode before) (frame.chunkAt 0)
      (gathered config opcode (before ++ [frame])) := by
  by_cases parameters : frame.tag = .parm
  · have last : frame ∈ before ++ [frame] := List.mem_append_right before List.mem_cons_self
    have front : (slotStream before).length % config.slotWidth = 0 := by
      rw [length_slotStream consistent.of_append.whole, Nat.mul_mod_right]
    have counted := consistent.counted
    rw [slotCount_snoc, slotsOf, if_pos parameters] at counted
    rw [gathered_snoc_parameters opcode front parameters]
    refine .parameters parameters (consistent.whole frame last parameters) ?_
    rw [consistent.of_append.length_gathered]
    exact counted
  · rw [gathered_snoc opcode parameters]
    by_cases data : frame.tag = .data
    · have vacant := consistent.vacant data
      rw [vacant, if_pos data, Option.none_or]
      exact .data data vacant
    · rw [if_neg data, Option.or_none]
      exact .skipped parameters data

/-- Frames that go together are taken in one by one, up to what all of them make up. -/
theorem foldlM_gathered (before : List WireFrame) {frames : List WireFrame} (opcode : UInt32)
    (consistent : Consistent config limits (before ++ frames)) :
    (frames.map WireFrame.toFrame).foldlM (absorbFrame config limits)
        (gathered config opcode before) = .ok (gathered config opcode (before ++ frames)) := by
  induction frames generalizing before with
  | nil => rw [List.append_nil]; rfl
  | cons frame rest ih =>
    rw [← List.singleton_append, ← List.append_assoc] at consistent ⊢
    have step := absorb_of_absorbs (absorbs_gathered opcode consistent.of_append)
    rw [List.singleton_append, List.map_cons, List.foldlM_cons]
    exact bind_eq_ok_iff.mpr ⟨_, step, ih _ consistent⟩

/-- What a frame clashes in is what it is refused for. -/
theorem absorbFrame_of_clashes {before : List WireFrame} {frame : WireFrame} {fault : Fault}
    (opcode : UInt32) (consistent : Consistent config limits before)
    (clashes : Clashes config limits before frame fault) :
    absorbFrame config limits (gathered config opcode before) frame.toFrame = .error fault := by
  cases clashes with
  | ragged tag left =>
    rw [absorbFrame, absorb, if_pos tag, addParameters, if_pos left]
  | crowded tag whole more =>
    rw [slotCount_snoc, slotsOf, if_pos tag, ← consistent.length_gathered opcode] at more
    rw [absorbFrame, absorb, if_pos tag, addParameters, if_neg (not_not_intro whole), if_pos more]
  | repeated tag held =>
    obtain ⟨other, member, block⟩ := held
    have notParameters : frame.tag ≠ .parm := by rw [tag]; decide
    cases found : firstBlock before with
    | none => exact absurd block (firstBlock_eq_none_iff.mp found other member)
    | some data =>
      rw [absorbFrame, absorb, if_neg notParameters, if_pos tag, addData, gathered, found]

/-! ### What was gathered is what is spelled -/

theorem Spells.unique {header : Bytes} {frames : List WireFrame} {request other : Request}
    (spells : Spells config header frames request) (spells' : Spells config header frames other) :
    request = other := by
  have opcode : request.opcode = other.opcode :=
    UInt32.toNat_inj.mp (spells.opcode.trans spells'.opcode.symm)
  -- Both fill the same lists with slots of the same width.
  have count : request.parameters.length = other.parameters.length :=
    Nat.eq_of_mul_eq_mul_left config.slotWidth_pos (spells.filled.trans spells'.filled.symm)
  have parameters : request.parameters = other.parameters := by
    apply List.ext_getElem count
    intro index bound bound'
    obtain ⟨width, raw⟩ := spells.slots index bound
    obtain ⟨width', raw'⟩ := spells'.slots index bound'
    exact Parameter.ext_raw_width (raw.trans raw'.symm) (width.trans width'.symm)
  have data : request.data = other.data := spells.data.trans spells'.data.symm
  cases request
  cases other
  cases opcode
  cases parameters
  cases data
  rfl

theorem Consistent.spells {header : Bytes} {frames : List WireFrame}
    (consistent : Consistent config limits frames) (opcode : opcodeOf config header < UInt32.size) :
    Spells config header frames
      (gathered config (UInt32.ofNat (opcodeOf config header)) frames) where
  opcode := UInt32.toNat_ofNat_of_lt' opcode
  filled := by rw [consistent.length_gathered, length_slotStream consistent.whole]
  slots _ bound := getElem_readSlots bound
  data := rfl

/-! ### Readings -/

theorem readOpcode_eq_ok {header : Bytes} (opcode : opcodeOf config header < UInt32.size) :
    readOpcode config header = .ok (UInt32.ofNat (opcodeOf config header)) := if_pos opcode

theorem readOpcode_eq_error {header : Bytes} (wide : UInt32.size ≤ opcodeOf config header) :
    readOpcode config header = .error (.invalidField .opcode (opcodeOf config header)) :=
  if_neg (Nat.not_lt_of_le wide)

/-- The walk over the chunks of a call, behind frames at their front. -/
def walkBehind (limits : Limits) (frames : List WireFrame) (rest : Bytes) : Walk :=
  (Walk.start (concat frames ++ rest) limits.maxChunks).past frames rest

theorem seen_walkBehind (limits : Limits) (frames : List WireFrame) (rest : Bytes) :
    (walkBehind limits frames rest).seen = frames.length := Nat.zero_add _

theorem cursor_walkBehind (limits : Limits) (frames : List WireFrame) (rest : Bytes) :
    (walkBehind limits frames rest).cursor = (concat frames).length := Nat.zero_add _

section

variable {payload header rest : Bytes} {frames : List WireFrame}

theorem Begins.short (begins : Begins config limits payload header frames rest)
    (short : payload.length < offsetSpace) : (concat frames ++ rest).length < offsetSpace := by
  rw [begins.split, List.length_append] at short
  omega

theorem Begins.ready (begins : Begins config limits payload header frames rest)
    (short : payload.length < offsetSpace) : (walkBehind limits frames rest).Ready :=
  Walk.ready_past (Walk.ready_start (begins.short short)) rfl
    (by simpa only [Walk.start, Nat.zero_add] using begins.chunks)

/-- Behind the frames with which a call begins, no chunk can be split off for the fault in the
verdict. -/
theorem split_eq_error_iff_of_begins {fault : Fault}
    (begins : Begins config limits payload header frames rest)
    (short : payload.length < offsetSpace) :
    Chunk.split (concat frames).length rest = .error fault ↔
      Chunk.Verdict (concat frames ++ rest) (concat frames).length (.error fault) := by
  have room := begins.short short
  have narrow : (concat frames).length < offsetSpace := by
    rw [List.length_append] at room
    omega
  rw [← Chunk.split_eq_error_iff room narrow, List.drop_left]

/-- A call that begins with frames that go together is read from what these make up on. -/
theorem decode_of_begins (begins : Begins config limits payload header frames rest)
    (short : payload.length < offsetSpace) :
    decode config limits payload =
      (walkBehind limits frames rest).fold (absorb config limits)
        (gathered config (UInt32.ofNat (opcodeOf config header)) frames) := by
  -- What a chunk adds does not depend on where it stands.
  have blind (state : Request) (frame : Frame) (offset : Nat) :
      state.absorb config limits ⟨frame.tag, offset, frame.payload⟩ =
        absorbFrame config limits state frame := rfl
  have ready : (Walk.start (concat frames ++ rest) limits.maxChunks).Ready :=
    Walk.ready_start (begins.short short)
  have room := begins.chunks
  rw [← Nat.zero_add frames.length] at room
  have together := foldlM_gathered [] (UInt32.ofNat (opcodeOf config header)) begins.consistent
  rw [gathered_nil, List.nil_append] at together
  rw [begins.split, decode_append begins.width, readOpcode_eq_ok begins.opcode]
  simp only [Except.bind]
  rw [Walk.fold_past blind ready rfl room, together]
  rfl

theorem decode_of_begins_nil (begins : Begins config limits payload header frames [])
    (short : payload.length < offsetSpace) :
    decode config limits payload =
      .ok (gathered config (UInt32.ofNat (opcodeOf config header)) frames) := by
  rw [decode_of_begins begins short, Walk.fold_of_ends (begins.ready short) (.done rfl)]
  rfl

/-- A call is refused for what `Refused` names. -/
theorem decode_of_refused {fault : Fault} (refused : Refused config limits payload fault)
    (short : payload.length < offsetSpace) : decode config limits payload = .error fault := by
  cases refused with
  | headless few => rw [decode, if_pos few]
  | opcode width split wide =>
    rw [split, decode_append width, readOpcode_eq_error wide]
    rfl
  | @full header rest before begins more full =>
    -- The frames before are taken in, and then the walk ends with this fault.
    have ends : (walkBehind limits before rest).Ends
        (some (.limitExceeded .chunks limits.maxChunks.toNat)) := by
      refine .full more ?_
      rw [seen_walkBehind, full]
      exact Nat.le_refl _
    rw [decode_of_begins begins short, Walk.fold_of_ends (begins.ready short) ends]
    rfl
  | @broken header rest before fault begins more room verdict =>
    have ready := begins.ready short
    have ends : (walkBehind limits before rest).Ends (some fault) := by
      refine .broken more ?_ ?_
      · rw [seen_walkBehind]
        exact room
      · rw [← split_eq_error_iff_of_begins begins short, ← cursor_walkBehind limits] at verdict
        exact verdict
    rw [decode_of_begins begins short, Walk.fold_of_ends ready ends]
    rfl
  | @clash header rest before frame fault begins room clashes =>
    have more : (walkBehind limits before (frame.bytes ++ rest)).seen < limits.maxChunks.toNat := by
      rw [seen_walkBehind]
      exact room
    have read := Walk.next_frame (begins.ready short) rfl more
    have refused := absorbFrame_of_clashes (UInt32.ofNat (opcodeOf config header))
      begins.consistent clashes
    rw [decode_of_begins begins short, Walk.fold_of_next_ok read]
    exact congrArg (Except.bind · _) refused

/-- Frames behind which a walk ends make up a call, or there is a fault for which it is refused. -/
theorem Begins.settled {fault : Option Fault}
    (begins : Begins config limits payload header frames rest)
    (short : payload.length < offsetSpace) (ends : (walkBehind limits frames rest).Ends fault) :
    (∃ header frames, Begins config limits payload header frames []) ∨
      ∃ fault, Refused config limits payload fault := by
  -- The walk ends where all is read, at its bound, or at a frame that is broken.
  cases ends with
  | done used =>
    have used : rest = [] := used
    subst used
    exact Or.inl ⟨header, frames, begins⟩
  | full more full =>
    rw [seen_walkBehind] at full
    exact Or.inr ⟨_, .full begins more (Nat.le_antisymm begins.chunks full)⟩
  | @broken fault more room failed =>
    rw [seen_walkBehind] at room
    rw [cursor_walkBehind] at failed
    exact Or.inr ⟨fault, .broken begins more room
      ((split_eq_error_iff_of_begins begins short).mp failed)⟩

/-- Every call is made up of frames that go together, or there is a fault for which it is
refused. -/
theorem begins_or_refused (config : Configuration) (limits : Limits)
    (short : payload.length < offsetSpace) :
    (∃ header frames, Begins config limits payload header frames []) ∨
      ∃ fault, Refused config limits payload fault := by
  by_cases few : payload.length < config.callHeaderWidth
  · exact Or.inr ⟨_, .headless few⟩
  obtain ⟨header, region, rfl, width⟩ : ∃ header region : Bytes,
      payload = header ++ region ∧ header.length = config.callHeaderWidth :=
    ⟨_, _, (List.take_append_drop config.callHeaderWidth payload).symm,
      List.length_take_of_le (Nat.le_of_not_lt few)⟩
  by_cases wide : UInt32.size ≤ opcodeOf config header
  · exact Or.inr ⟨_, .opcode width rfl wide⟩
  have opcode := Nat.lt_of_not_le wide
  have fits : region.length < offsetSpace := by
    rw [List.length_append] at short
    omega
  -- The walk tells how many frames there are; they are then judged one after another.
  have ready : (Walk.start region limits.maxChunks).Ready := Walk.ready_start fits
  obtain ⟨frames, rest, front, room, -, ends⟩ := Walk.exists_frames ready
  have front : region = concat frames ++ rest := front
  have room : frames.length ≤ limits.maxChunks.toNat := by
    simpa only [Walk.start, Nat.zero_add] using room
  rcases exists_clash config limits frames with
    consistent | ⟨before, frame, behind, fault, rfl, consistent, clashes⟩
  · have begins : Begins config limits (header ++ region) header frames rest :=
      ⟨width, congrArg _ front, opcode, room, consistent⟩
    rw [front] at ends
    exact begins.settled short ends
  · rw [List.length_append, List.length_cons] at room
    have whole : header ++ region =
        header ++ (concat before ++ (frame.bytes ++ (concat behind ++ rest))) := by
      rw [front, WireFrame.concat_append, WireFrame.concat_cons]
      simp only [List.append_assoc]
    have begins : Begins config limits (header ++ region) header before
        (frame.bytes ++ (concat behind ++ rest)) := ⟨width, whole, opcode, by omega, consistent⟩
    exact Or.inr ⟨fault, .clash begins (by omega) clashes⟩

theorem decode_eq_ok_iff_spells {request : Request} (short : payload.length < offsetSpace) :
    decode config limits payload = .ok request ↔
      ∃ header frames, Begins config limits payload header frames [] ∧
        Spells config header frames request := by
  constructor
  · intro decoded
    rcases begins_or_refused config limits short with ⟨header, frames, begins⟩ | ⟨fault, refused⟩
    · rw [decode_of_begins_nil begins short] at decoded
      cases decoded
      exact ⟨header, frames, begins, begins.consistent.spells begins.opcode⟩
    · rw [decode_of_refused refused short] at decoded
      cases decoded
  · rintro ⟨header, frames, begins, spells⟩
    rw [decode_of_begins_nil begins short, spells.unique (begins.consistent.spells begins.opcode)]

theorem decode_eq_error_iff_refused {fault : Fault} (short : payload.length < offsetSpace) :
    decode config limits payload = .error fault ↔ Refused config limits payload fault := by
  constructor
  · intro failed
    rcases begins_or_refused config limits short with ⟨header, frames, begins⟩ | ⟨other, refused⟩
    · rw [decode_of_begins_nil begins short] at failed
      cases failed
    · rw [decode_of_refused refused short] at failed
      cases failed
      exact refused
  · intro refused
    exact decode_of_refused refused short

end

/-- Under every configuration and all limits a call is read exactly if it has a header, its opcode
has 32 bits, and the rest is frames, no more than may be, that go together; the request is then what
they spell. Otherwise it is refused for the first thing that is wrong: the header, the opcode, and
then each frame in turn, of which the bound on chunks and the framing come before the content. -/
theorem call_is_judged_in_wire_order (config : Configuration) (limits : Limits) {chunk : Chunk}
    (called : chunk.tag = .call) (short : chunk.payload.length < offsetSpace) :
    ((∃ request, decodeChunk (some config) limits chunk = .ok request) ↔
      ∃ header frames, Begins config limits chunk.payload header frames []) ∧
    (∀ request, decodeChunk (some config) limits chunk = .ok request ↔
      ∃ header frames, Begins config limits chunk.payload header frames [] ∧
        Spells config header frames request) ∧
    ∀ fault, decodeChunk (some config) limits chunk = .error fault ↔
      Refused config limits chunk.payload fault := by
  rw [Message.decodeChunk_of_tag called]
  refine ⟨?_, fun request => decode_eq_ok_iff_spells short,
    fun fault => decode_eq_error_iff_refused short⟩
  constructor
  · rintro ⟨request, decoded⟩
    obtain ⟨header, frames, begins, -⟩ := (decode_eq_ok_iff_spells short).mp decoded
    exact ⟨header, frames, begins⟩
  · rintro ⟨header, frames, begins⟩
    exact ⟨_, decode_of_begins_nil begins short⟩

/-- A call of three parameter lists, one of them empty, an unknown chunk and a data block. -/
def scatteredCall : Chunk where
  tag := .call
  offset := 0
  payload := [1, 2, 9, 9] ++ [Frame.mk .parm [0, 1, 0, 2], ⟨.erro, [5]⟩, ⟨.parm, []⟩,
    ⟨.data, [7, 8, 9]⟩, ⟨.parm, [1, 0]⟩].flatMap Frame.bytes

theorem scattered_call_is_judged :
    scatteredCall.tag = .call ∧ scatteredCall.payload.length < offsetSpace ∧
    (∃ header frames,
      Begins ⟨.two, .one, .big⟩ ⟨5, 1, 3⟩ scatteredCall.payload header frames [] ∧
      Spells ⟨.two, .one, .big⟩ header frames
        ⟨258, [.ofNat 1 2, .ofNat 2 2, .ofNat 256 2], some [7, 8, 9]⟩) ∧
    Refused ⟨.two, .one, .big⟩ ⟨5, 1, 2⟩ scatteredCall.payload (.limitExceeded .parameters 2) ∧
    Refused ⟨.two, .one, .big⟩ ⟨4, 1, 2⟩ scatteredCall.payload (.limitExceeded .chunks 4) ∧
    Refused ⟨.four, .one, .big⟩ ⟨4, 1, 0⟩ scatteredCall.payload (.limitExceeded .parameters 0) := by
  have called : scatteredCall.tag = .call := rfl
  have short : scatteredCall.payload.length < offsetSpace := by decide +kernel
  have judged (config : Configuration) (limits : Limits) :=
    call_is_judged_in_wire_order config limits called short
  refine ⟨called, short, ?_, ?_, ?_, ?_⟩
  · exact ((judged _ _).2.1 _).mp (by decide +kernel)
  · exact ((judged _ _).2.2 _).mp (by decide +kernel)
  · exact ((judged _ _).2.2 _).mp (by decide +kernel)
  · exact ((judged _ _).2.2 _).mp (by decide +kernel)

end Semihosting.Request
