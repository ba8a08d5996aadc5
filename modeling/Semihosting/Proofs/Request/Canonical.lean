import Semihosting.Proofs.Outcomes
import Semihosting.Proofs.Riff.Grammar
import Semihosting.Request.Encode

/-!
# Calls as they are written

The canonical payload of a call is its header, the parameters in one list unless there are none, and
the data block if there is one. It is defined here for every request, apart from the writer, and its
size depends on nothing but the number of parameters and the size of the data. Main statements: the
writer appends the canonical payload of every request that fits (`write_eq_ok`), and otherwise names
the first value that does not fit (`write_of_opcode`, `write_of_parameter`).
-/
namespace Semihosting

open Riff (Frame Writer offsetSpace)

namespace Request

/-- The opcode fits an integer and every parameter a slot. -/
structure Fits (config : Configuration) (request : Request) : Prop where
  opcode : request.opcode.toNat < 256 ^ config.intSize.bytes
  parameters : ∀ parameter ∈ request.parameters, parameter.raw < 256 ^ config.slotWidth

/-- The request with its parameters in slots of the negotiated width. -/
def slotted (config : Configuration) (request : Request) : Request :=
  { request with
    parameters := request.parameters.map fun parameter =>
      Parameter.ofNat parameter.raw config.slotWidth }

/-- The slots of parameters, whether or not they fit. -/
def slotBytes (config : Configuration) (parameters : List Parameter) : Bytes :=
  parameters.flatMap fun parameter => config.order.write config.slotWidth parameter.raw

/-- The parameter list, left out if it would be empty. -/
def parameterFrames (config : Configuration) : List Parameter → List Frame
  | [] => []
  | parameters => [⟨.parm, slotBytes config parameters⟩]

/-- The data block, left out if there is none. -/
def dataFrames : Option Bytes → List Frame
  | none => []
  | some data => [⟨.data, data⟩]

def frames (config : Configuration) (request : Request) : List Frame :=
  parameterFrames config request.parameters ++ dataFrames request.data

def body (config : Configuration) (request : Request) : Bytes :=
  (frames config request).flatMap Frame.bytes

def payload (config : Configuration) (request : Request) : Bytes :=
  header config request.opcode ++ body config request

/-- The size that a parameter list takes, with its own header and padding. -/
def parametersSize (config : Configuration) : Nat → Nat
  | 0 => 0
  | count => Frame.span (config.slotWidth * count)

/-- The size that a data block takes, with its own header and padding. -/
def dataSize : Option Bytes → Nat
  | none => 0
  | some data => Frame.span data.length

def bodySize (config : Configuration) (request : Request) : Nat :=
  parametersSize config request.parameters.length + dataSize request.data

def payloadSize (config : Configuration) (request : Request) : Nat :=
  config.callHeaderWidth + bodySize config request

/-! ### Sizes -/

theorem length_frames_le (config : Configuration) (request : Request) :
    (frames config request).length ≤ 2 := by
  obtain ⟨opcode, parameters, data⟩ := request
  cases parameters <;> cases data <;> simp [frames, parameterFrames, dataFrames]

@[simp] theorem length_header (config : Configuration) (opcode : UInt32) :
    (header config opcode).length = config.callHeaderWidth := by
  have wide := config.intSize_le_callHeaderWidth
  simp only [header, List.length_append, ByteOrder.length_write, List.length_replicate]
  omega

@[simp] theorem length_slotBytes (config : Configuration) (parameters : List Parameter) :
    (slotBytes config parameters).length = config.slotWidth * parameters.length := by
  induction parameters with
  | nil => rfl
  | cons parameter rest ih =>
    rw [slotBytes, List.flatMap_cons, List.length_append, ByteOrder.length_write]
    rw [slotBytes] at ih
    rw [ih, List.length_cons, Nat.mul_add, Nat.mul_one, Nat.add_comm]

theorem slotBytes_ne_nil {config : Configuration} {parameters : List Parameter}
    (filled : parameters ≠ []) : slotBytes config parameters ≠ [] := by
  intro empty
  have length := length_slotBytes config parameters
  rw [empty, List.length_nil] at length
  -- A slot takes at least one byte.
  rcases Nat.mul_eq_zero.mp length.symm with zero | none
  · exact absurd zero (Nat.ne_of_gt config.slotWidth_pos)
  · exact filled (List.eq_nil_of_length_eq_zero none)

theorem length_parameterFrames (config : Configuration) (parameters : List Parameter) :
    ((parameterFrames config parameters).flatMap Frame.bytes).length =
      parametersSize config parameters.length := by
  cases parameters with
  | nil => rfl
  | cons parameter rest =>
    simp only [parameterFrames, List.flatMap_cons, List.flatMap_nil, List.append_nil,
      Frame.length_bytes, length_slotBytes]
    rfl

theorem length_dataFrames (data : Option Bytes) :
    ((dataFrames data).flatMap Frame.bytes).length = dataSize data := by
  cases data with
  | none => rfl
  | some data =>
    simp only [dataFrames, List.flatMap_cons, List.flatMap_nil, List.append_nil,
      Frame.length_bytes]
    rfl

@[simp] theorem length_body (config : Configuration) (request : Request) :
    (body config request).length = bodySize config request := by
  rw [body, frames, List.flatMap_append, List.length_append, length_parameterFrames,
    length_dataFrames]
  rfl

@[simp] theorem length_payload (config : Configuration) (request : Request) :
    (payload config request).length = payloadSize config request := by
  rw [payload, List.length_append, length_header, length_body]
  rfl

/-! ### Writing -/

theorem writeSlots_eq_ok {config : Configuration} {parameters : List Parameter}
    (fit : ∀ parameter ∈ parameters, parameter.raw < 256 ^ config.slotWidth) :
    writeSlots config parameters = .ok (slotBytes config parameters) := by
  induction parameters with
  | nil => rfl
  | cons parameter rest ih =>
    have first := fit parameter List.mem_cons_self
    have others := ih fun other member => fit other (List.mem_cons_of_mem _ member)
    rw [writeSlots, if_neg (Nat.not_le_of_lt first), others]
    rfl

/-- The first parameter that has no room in a slot is the one that is reported. -/
theorem writeSlots_of_parameter {config : Configuration} {before behind : List Parameter}
    {parameter : Parameter} (fit : ∀ earlier ∈ before, earlier.raw < 256 ^ config.slotWidth)
    (wide : 256 ^ config.slotWidth ≤ parameter.raw) :
    writeSlots config (before ++ parameter :: behind) =
      .error (.invalidField .parameter parameter.raw) := by
  induction before with
  | nil => rw [List.nil_append, writeSlots, if_pos wide]
  | cons first before ih =>
    have narrow := fit first List.mem_cons_self
    have others := ih fun other member => fit other (List.mem_cons_of_mem _ member)
    rw [List.cons_append, writeSlots, if_neg (Nat.not_le_of_lt narrow), others]
    rfl

theorem fit_of_writeSlots {config : Configuration} {parameters : List Parameter} {slots : Bytes}
    (written : writeSlots config parameters = .ok slots) :
    ∀ parameter ∈ parameters, parameter.raw < 256 ^ config.slotWidth := by
  induction parameters generalizing slots with
  | nil => exact fun _ member => absurd member List.not_mem_nil
  | cons first rest ih =>
    rw [writeSlots] at written
    split at written
    · cases written
    next narrow =>
      obtain ⟨others, made, -⟩ := map_eq_ok_iff.mp written
      exact List.forall_mem_cons.mpr ⟨Nat.lt_of_not_le narrow, ih made⟩

/-- Parameters become a frame of their own, unless there are none. -/
theorem writeParameters_eq_ok (config : Configuration) (parameters : List Parameter)
    (writer : Writer) (short : parametersSize config parameters.length < offsetSpace) :
    writeParameters writer (slotBytes config parameters) =
      .ok ⟨writer.bytes ++ (parameterFrames config parameters).flatMap Frame.bytes⟩ := by
  cases parameters with
  | nil => simp [writeParameters, slotBytes, parameterFrames]
  | cons parameter rest =>
    have fits : (slotBytes config (parameter :: rest)).length < offsetSpace := by
      rw [length_slotBytes]
      simp only [List.length_cons, parametersSize, Frame.span] at short ⊢
      omega
    rw [writeParameters, if_neg (slotBytes_ne_nil (List.cons_ne_nil _ _)), Writer.push_eq_ok fits]
    simp only [parameterFrames, List.flatMap_cons, List.flatMap_nil, List.append_nil]

theorem writeData_eq_ok (data : Option Bytes) (writer : Writer)
    (short : dataSize data < offsetSpace) :
    writeData writer data = .ok ⟨writer.bytes ++ (dataFrames data).flatMap Frame.bytes⟩ := by
  cases data with
  | none => simp [writeData, dataFrames]
  | some data =>
    have fits : data.length < offsetSpace := by
      simp only [dataSize, Frame.span] at short
      omega
    rw [writeData, Writer.push_eq_ok fits]
    simp only [dataFrames, List.flatMap_cons, List.flatMap_nil, List.append_nil]

/-- A request that fits is written as its canonical payload. -/
theorem write_eq_ok {config : Configuration} {request : Request} (fits : request.Fits config)
    (writer : Writer) (short : payloadSize config request < offsetSpace) :
    request.write config writer =
      .ok ⟨writer.bytes ++ (Frame.mk .call (payload config request)).bytes⟩ := by
  have size : config.callHeaderWidth + (parametersSize config request.parameters.length +
      dataSize request.data) < offsetSpace := short
  -- Both writers start behind what is there already and append their own frames.
  have parameters := writeParameters_eq_ok config request.parameters
    ⟨header config request.opcode⟩ (by omega)
  have data := writeData_eq_ok request.data ⟨header config request.opcode ++
    (parameterFrames config request.parameters).flatMap Frame.bytes⟩ (by omega)
  have whole : header config request.opcode ++
      (parameterFrames config request.parameters).flatMap Frame.bytes ++
        (dataFrames request.data).flatMap Frame.bytes = payload config request := by
    rw [payload, body, frames, List.flatMap_append, List.append_assoc]
  rw [write, if_neg (Nat.not_le_of_lt fits.opcode), writeSlots_eq_ok fits.parameters]
  simp only [Except.bind, Writer.pushNested, parameters, data]
  rw [whole]
  exact Writer.push_eq_ok (by rwa [length_payload])

theorem write_of_opcode {config : Configuration} {request : Request}
    (wide : 256 ^ config.intSize.bytes ≤ request.opcode.toNat) (writer : Writer) :
    request.write config writer = .error (.invalidField .opcode request.opcode.toNat) := by
  rw [write, if_pos wide]

theorem write_of_parameter {config : Configuration} {request : Request}
    {before behind : List Parameter} {parameter : Parameter}
    (narrow : request.opcode.toNat < 256 ^ config.intSize.bytes)
    (split : request.parameters = before ++ parameter :: behind)
    (fit : ∀ earlier ∈ before, earlier.raw < 256 ^ config.slotWidth)
    (wide : 256 ^ config.slotWidth ≤ parameter.raw) (writer : Writer) :
    request.write config writer = .error (.invalidField .parameter parameter.raw) := by
  rw [write, if_neg (Nat.not_le_of_lt narrow), split, writeSlots_of_parameter fit wide]
  rfl

theorem fits_of_write {config : Configuration} {request : Request} {writer after : Writer}
    (written : request.write config writer = .ok after) : request.Fits config := by
  unfold write at written
  split at written
  · cases written
  next narrow =>
    obtain ⟨slots, made, -⟩ := bind_eq_ok_iff.mp written
    exact ⟨Nat.lt_of_not_le narrow, fit_of_writeSlots made⟩

theorem eq_of_writeParameters {config : Configuration} {parameters : List Parameter}
    {writer after : Writer}
    (written : writeParameters writer (slotBytes config parameters) = .ok after) :
    after = ⟨writer.bytes ++ (parameterFrames config parameters).flatMap Frame.bytes⟩ := by
  cases parameters with
  | nil =>
    cases written
    simp only [parameterFrames, List.flatMap_nil, List.append_nil]
  | cons parameter rest =>
    rw [writeParameters, if_neg (slotBytes_ne_nil (List.cons_ne_nil _ _))] at written
    rw [Writer.eq_of_push written]
    simp only [parameterFrames, List.flatMap_cons, List.flatMap_nil, List.append_nil]

theorem eq_of_writeData {data : Option Bytes} {writer after : Writer}
    (written : writeData writer data = .ok after) :
    after = ⟨writer.bytes ++ (dataFrames data).flatMap Frame.bytes⟩ := by
  cases data with
  | none =>
    cases written
    simp only [dataFrames, List.flatMap_nil, List.append_nil]
  | some data =>
    rw [Writer.eq_of_push written]
    simp only [dataFrames, List.flatMap_cons, List.flatMap_nil, List.append_nil]

/-- Nothing but the canonical payload is ever written. -/
theorem eq_of_write {config : Configuration} {request : Request} {writer after : Writer}
    (written : request.write config writer = .ok after) :
    after = ⟨writer.bytes ++ (Frame.mk .call (payload config request)).bytes⟩ := by
  have fits := fits_of_write written
  rw [write, if_neg (Nat.not_le_of_lt fits.opcode), writeSlots_eq_ok fits.parameters] at written
  simp only [Except.bind] at written
  -- What is left are three writers, each of which went on from where the one before had stopped.
  obtain ⟨inner, built, pushed⟩ := bind_eq_ok_iff.mp written
  obtain ⟨listed, first, second⟩ := bind_eq_ok_iff.mp built
  rw [Writer.eq_of_push pushed, eq_of_writeData second, eq_of_writeParameters first, payload, body,
    frames, List.flatMap_append, List.append_assoc]

end Request

end Semihosting
