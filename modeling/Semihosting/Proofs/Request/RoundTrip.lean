import Mathlib.Data.List.Basic
import Semihosting.Proofs.Request.Canonical
import Semihosting.Proofs.Riff.Traversal
import Semihosting.Request.Decode

/-!
# Calls read back

The reader finds in a canonical payload what was written into it, up to the width of the slots. Main
statements: the slots of a parameter list are read as its parameters (`readSlots_slotBytes`), and
the canonical payload of a request is read as the request in slots of the negotiated width
(`decode_payload`).
-/
namespace Semihosting.Request

open Riff (Frame Walk offsetSpace)

/-- The zeros that fill up the header are not part of the opcode. -/
theorem readOpcode_header {config : Configuration} {opcode : UInt32} (rest : Bytes)
    (fits : opcode.toNat < 256 ^ config.intSize.bytes) :
    readOpcode config (header config opcode ++ rest) = .ok opcode := by
  have front : (header config opcode ++ rest).take config.intSize.bytes =
      config.order.write config.intSize.bytes opcode.toNat := by
    rw [header, List.append_assoc]
    exact List.take_left' (ByteOrder.length_write _ _ _)
  have small : opcode.toNat < UInt32.size := opcode.toNat_lt
  have value : config.order.read ((header config opcode ++ rest).take config.intSize.bytes) =
      opcode.toNat := by
    rw [front, ByteOrder.read_write_of_le _ config.intSize.bytes_le, Nat.mod_eq_of_lt fits]
  simp only [readOpcode, value, if_pos small, UInt32.ofNat_toNat]

/-- A slot has a width that a parameter can have. -/
theorem clampWidth_slotWidth (config : Configuration) :
    Parameter.clampWidth config.slotWidth = config.slotWidth :=
  Parameter.clampWidth_eq_self config.slotWidth_pos config.slotWidth_le

/-- A slot keeps of a parameter what a slot can hold. -/
theorem ofNat_read_write (config : Configuration) (parameter : Parameter) :
    Parameter.ofNat (config.order.read (config.order.write config.slotWidth parameter.raw))
        config.slotWidth = Parameter.ofNat parameter.raw config.slotWidth := by
  apply Parameter.ext_raw_width
  · simp only [Parameter.ofNat, clampWidth_slotWidth,
      ByteOrder.read_write_of_le _ config.slotWidth_le, Nat.mod_mod]
  · rfl

theorem readSlots_slotBytes (config : Configuration) (parameters : List Parameter) :
    readSlots config (slotBytes config parameters) =
      parameters.map fun parameter => Parameter.ofNat parameter.raw config.slotWidth := by
  induction parameters with
  | nil => rw [readSlots, slotBytes, List.flatMap_nil, slots_nil]; rfl
  | cons parameter rest ih =>
    rw [readSlots, slotBytes] at ih
    rw [readSlots, slotBytes, List.flatMap_cons,
      slots_append config.slotWidth_pos (ByteOrder.length_write _ _ _), List.map_cons, ih,
      ofNat_read_write, List.map_cons]

theorem addParameters_slotBytes (config : Configuration) {limits : Limits} {request : Request}
    {parameters : List Parameter}
    (room : request.parameters.length + parameters.length ≤ limits.maxParameters.toNat) :
    request.addParameters config limits (slotBytes config parameters) =
      .ok { request with
        parameters := request.parameters ++ parameters.map fun parameter =>
          Parameter.ofNat parameter.raw config.slotWidth } := by
  have whole : (slotBytes config parameters).length % config.slotWidth = 0 := by
    rw [length_slotBytes, Nat.mul_mod_right]
  have count : (slotBytes config parameters).length / config.slotWidth = parameters.length := by
    rw [length_slotBytes, Nat.mul_div_cancel_left _ config.slotWidth_pos]
  rw [addParameters, if_neg (not_not_intro whole), count, if_neg (Nat.not_lt_of_le room),
    readSlots_slotBytes]

/-- What a frame inside a call adds to the request. -/
def absorbFrame (config : Configuration) (limits : Limits) (request : Request) (frame : Frame) :
    Except Fault Request :=
  request.absorb config limits ⟨frame.tag, 0, frame.payload⟩

theorem absorbFrame_of_unknown {config : Configuration} {limits : Limits} {frame : Frame}
    (request : Request) (notParameters : frame.tag ≠ .parm) (notData : frame.tag ≠ .data) :
    absorbFrame config limits request frame = .ok request := by
  rw [absorbFrame, absorb, if_neg notParameters, if_neg notData]

/-- From a bare call on, the canonical frame of a parameter list adds the whole list. -/
theorem absorb_parameterFrames {config : Configuration} {limits : Limits} {opcode : UInt32}
    {parameters : List Parameter} (room : parameters.length ≤ limits.maxParameters.toNat) :
    (parameterFrames config parameters).foldlM (absorbFrame config limits) (bare opcode) =
      .ok { bare opcode with
        parameters := parameters.map fun parameter =>
          Parameter.ofNat parameter.raw config.slotWidth } := by
  cases parameters with
  | nil => rfl
  | cons parameter rest =>
    have room' : (bare opcode).parameters.length + (parameter :: rest).length ≤
        limits.maxParameters.toNat := by
      simpa only [bare, List.length_nil, Nat.zero_add] using room
    have added := addParameters_slotBytes config room'
    simp only [parameterFrames, List.foldlM_cons, absorbFrame, absorb, if_true, added]
    rfl

theorem absorb_dataFrames {config : Configuration} {limits : Limits} {request : Request}
    (data : Option Bytes) (vacant : request.data = none) :
    (dataFrames data).foldlM (absorbFrame config limits) request =
      .ok { request with data } := by
  obtain ⟨opcode, parameters, held⟩ := request
  cases vacant
  cases data with
  | none => rfl
  | some data => rfl

/-- The canonical payload of a call is read as its request. -/
theorem decode_payload {config : Configuration} {limits : Limits} {request : Request}
    (opcode : request.opcode.toNat < 256 ^ config.intSize.bytes)
    (short : payloadSize config request < offsetSpace) (chunks : 2 ≤ limits.maxChunks.toNat)
    (slots : request.parameters.length ≤ limits.maxParameters.toNat) :
    decode config limits (payload config request) = .ok (slotted config request) := by
  have enough : ¬(payload config request).length < config.callHeaderWidth := by
    rw [length_payload, payloadSize]
    omega
  have behind : (payload config request).drop config.callHeaderWidth = body config request :=
    List.drop_left' (length_header _ _)
  have read : readOpcode config (payload config request) = .ok request.opcode :=
    readOpcode_header _ opcode
  have fits : (body config request).length < offsetSpace := by
    rw [length_body]
    rw [payloadSize] at short
    omega
  -- What a chunk adds does not depend on where it stands.
  have blind (state : Request) (frame : Frame) (offset : Nat) :
      state.absorb config limits ⟨frame.tag, offset, frame.payload⟩ =
        absorbFrame config limits state frame := rfl
  have region : (Walk.start (body config request) limits.maxChunks).fold (absorb config limits)
      (bare request.opcode) = _ :=
    Walk.fold_frames blind _ fits (Nat.le_trans (length_frames_le config request) chunks)
  rw [decode, if_neg enough, read, behind]
  simp only [Except.bind]
  rw [region, frames, List.foldlM_append, absorb_parameterFrames slots]
  exact absorb_dataFrames _ rfl

/-! ### Requests that were read -/

theorem raw_ofNat_slotWidth_lt (config : Configuration) (value : Nat) :
    (Parameter.ofNat value config.slotWidth).raw < 256 ^ config.slotWidth := by
  have bound := (Parameter.ofNat value config.slotWidth).raw_lt
  exact Nat.lt_of_lt_of_eq bound (congrArg (256 ^ ·) (clampWidth_slotWidth config))

theorem raw_ofNat_slotWidth {config : Configuration} {value : Nat}
    (fits : value < 256 ^ config.slotWidth) :
    (Parameter.ofNat value config.slotWidth).raw = value := by
  simp only [Parameter.ofNat, clampWidth_slotWidth, Nat.mod_eq_of_lt fits]

/-- A request in slots of the negotiated width is read back as it is. -/
theorem slotted_eq_self {config : Configuration} {request : Request}
    (widths : ∀ parameter ∈ request.parameters, parameter.width = config.slotWidth) :
    slotted config request = request := by
  have same (parameter : Parameter) (member : parameter ∈ request.parameters) :
      Parameter.ofNat parameter.raw config.slotWidth = parameter := by
    rw [← widths parameter member, Parameter.ofNat_raw_width]
  rw [slotted, List.map_congr_left same, List.map_id']

theorem Fits.slotted {config : Configuration} {request : Request} (fits : request.Fits config) :
    (Request.slotted config request).Fits config where
  opcode := fits.opcode
  parameters := by
    intro parameter member
    obtain ⟨original, -, rfl⟩ := List.mem_map.mp member
    exact raw_ofNat_slotWidth_lt config original.raw

/-- A request that fits is written as the request that is read back. -/
theorem payload_slotted {config : Configuration} {request : Request} (fits : request.Fits config) :
    payload config (slotted config request) = payload config request := by
  have slots : slotBytes config (slotted config request).parameters =
      slotBytes config request.parameters := by
    rw [slotted, slotBytes, slotBytes, List.flatMap_map]
    apply List.flatMap_congr
    intro parameter member
    rw [raw_ofNat_slotWidth (fits.parameters parameter member)]
  -- The list is left out on one side if and only if it is on the other.
  have lists : parameterFrames config (slotted config request).parameters =
      parameterFrames config request.parameters := by
    obtain ⟨opcode, parameters, data⟩ := request
    cases parameters with
    | nil => rfl
    | cons parameter rest => exact congrArg (fun bytes => [Frame.mk .parm bytes]) slots
  rw [payload, payload, body, body, frames, frames, lists]
  rfl

theorem payloadSize_slotted (config : Configuration) (request : Request) :
    payloadSize config (slotted config request) = payloadSize config request := by
  simp only [payloadSize, bodySize, slotted, List.length_map]

end Semihosting.Request
