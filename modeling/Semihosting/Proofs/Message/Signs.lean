import Mathlib.Data.List.Forall2
import Semihosting.Proofs.Message.Accounting
import Semihosting.Proofs.Message.Curtailment
import Semihosting.Proofs.TwosComplement

/-!
# Signs of parameters

A slot carries the content of a parameter and not its width, so whoever reads the slot takes the
sign from the top bit of the slot. Main results: a parameter of another width keeps its signed value
exactly if it stands in the lower half of what the narrower of the two widths can hold
(`Parameter.signed_eq_iff`), and this settles which parameters of a message keep theirs
(`signs_survive_in_the_lower_half`). A negative number in fewer bytes than a slot has is the least
that does not (`narrow_sign_is_lost`).
-/
namespace Semihosting

open Riff (Container offsetSpace)

namespace Parameter

/-- The signed value is the content itself unless the top bit is set. -/
theorem signed_eq_raw_iff (parameter : Parameter) :
    parameter.signed = parameter.raw ↔ parameter.raw < 2 ^ (8 * parameter.width - 1) := by
  have half : (0 : Int) < 2 ^ (8 * parameter.width - 1) := Int.pow_pos (by decide)
  rw [signed, TwosComplement.bmod_eq_self_iff parameter.width_pos]
  constructor
  · intro holds
    exact_mod_cast holds.high
  · intro low
    constructor
    · omega
    · exact_mod_cast low

/-- What fits into fewer bytes leaves the top bit of more bytes alone. -/
theorem signed_eq_raw_of_narrow {narrow wide : Parameter} (same : wide.raw = narrow.raw)
    (less : narrow.width < wide.width) : wide.signed = narrow.raw := by
  rw [← same]
  apply wide.signed_eq_raw_iff.mpr
  calc wide.raw = narrow.raw := same
    _ < 256 ^ narrow.width := narrow.raw_lt
    _ = 2 ^ (8 * narrow.width) := (Nat.pow_mul 2 8 narrow.width).symm
    _ ≤ 2 ^ (8 * wide.width - 1) := Nat.pow_le_pow_right (by decide) (by omega)

/-- The same content in slots of two widths has one signed value exactly if the widths agree or the
sign bit of the narrower slot is clear. -/
theorem signed_eq_iff {sent received : Parameter} (same : received.raw = sent.raw) :
    received.signed = sent.signed ↔
      sent.width = received.width ∨ sent.raw < 2 ^ (8 * min sent.width received.width - 1) := by
  rcases Nat.lt_trichotomy sent.width received.width with wider | equal | narrower
  · rw [signed_eq_raw_of_narrow same wider, eq_comm, sent.signed_eq_raw_iff,
      Nat.min_eq_left (Nat.le_of_lt wider), or_iff_right (Nat.ne_of_lt wider)]
  · have equal' : received = sent := ext_raw_width same equal.symm
    exact iff_of_true (congrArg signed equal') (Or.inl equal)
  · rw [signed_eq_raw_of_narrow same.symm narrower, received.signed_eq_raw_iff, same,
      Nat.min_eq_right (Nat.le_of_lt narrower), or_iff_right (Nat.ne_of_gt narrower)]

/-- What a slot makes of a parameter. -/
structure Carried (slot : Nat) (sent received : Parameter) : Prop where
  width : received.width = slot
  raw : received.raw = sent.raw
  signed : received.signed = sent.signed ↔
    sent.width = slot ∨ sent.raw < 2 ^ (8 * min sent.width slot - 1)

theorem carried_of_fits {config : Configuration} {parameter : Parameter}
    (fits : parameter.raw < 256 ^ config.slotWidth) :
    Carried config.slotWidth parameter (ofNat parameter.raw config.slotWidth) := by
  have width : (ofNat parameter.raw config.slotWidth).width = config.slotWidth :=
    Request.clampWidth_slotWidth config
  have raw := Request.raw_ofNat_slotWidth fits
  have signed := signed_eq_iff raw
  rw [width] at signed
  exact ⟨width, raw, signed⟩

end Parameter

namespace Message

variable {config : Configuration} {request : Request} {message : Bytes}

/-- A request that was written is the only call read from its message, in slots of the negotiated
width. -/
theorem calls_of_ofRequest (limits : Limits) (written : ofRequest config request = .ok message)
    (chunks : 2 ≤ limits.maxChunks.toNat) (one : 1 ≤ limits.maxCalls.toNat)
    (slots : request.parameters.length ≤ limits.maxParameters.toNat) :
    calls limits message = .ok [⟨config, request.slotted config⟩] := by
  have fits := fits_of_ofRequest written
  have short := requestSize_lt_of_ofRequest written
  rw [ofRequest_eq_ok fits short] at written
  cases written
  apply calls_wrap_requestBody short chunks one
  exact Request.decode_payload fits.opcode (payloadSize_lt short) chunks slots

/-- Under whichever limits a written message is read, it is read as the request in it. -/
theorem eq_of_calls_of_ofRequest {limits : Limits} {made : List Call}
    (written : ofRequest config request = .ok message) (read : calls limits message = .ok made) :
    made = [⟨config, request.slotted config⟩] := by
  -- Slots are part of the message, so there are fewer than the widest limits have room for.
  have few : request.parameters.length ≤ Limits.unbounded.maxParameters.toNat := by
    have payload := payloadSize_lt (requestSize_lt_of_ofRequest written)
    have slots := Request.slots_le_parametersSize config request.parameters.length
    have one := Nat.le_mul_of_pos_left request.parameters.length config.slotWidth_pos
    have bound : offsetSpace ≤ Limits.unbounded.maxParameters.toNat := by decide
    simp only [Request.payloadSize, Request.bodySize] at payload
    omega
  have whole := calls_of_ofRequest .unbounded written (by decide) (by decide) few
  have curbed := yielded_curbed limits.atMost_unbounded message callsOf
  rw [← calls_eq_yielded, ← calls_eq_yielded, read, whole] at curbed
  rcases curbed.eq_or_limit with same | ⟨bound, max, limited⟩
  · exact Except.ok.inj same
  · cases limited

/-- The content of every parameter survives the wire, whatever its width, and its signed value does
if the parameter has the width of a slot or its content stands in the lower half of what the
narrower of the two can hold, and not otherwise. -/
theorem signs_survive_in_the_lower_half (written : ofRequest config request = .ok message) :
    (∀ limits made, calls limits message = .ok made → ∃ received, made = [⟨config, received⟩] ∧
      List.Forall₂ (Parameter.Carried config.slotWidth) request.parameters received.parameters) ∧
    ∀ limits : Limits, 2 ≤ limits.maxChunks.toNat → 1 ≤ limits.maxCalls.toNat →
      request.parameters.length ≤ limits.maxParameters.toNat →
      ∃ made, calls limits message = .ok made := by
  constructor
  · intro limits made read
    have fits := fits_of_ofRequest written
    refine ⟨request.slotted config, eq_of_calls_of_ofRequest written read, ?_⟩
    apply List.forall₂_map_right_iff.mpr
    apply List.forall₂_same.mpr
    intro parameter member
    exact Parameter.carried_of_fits (fits.parameters parameter member)
  · intro limits chunks one slots
    exact ⟨_, calls_of_ofRequest limits written chunks one slots⟩

/-- Slots of four bytes. -/
def mixedConfig : Configuration := ⟨.two, .four, .big⟩

/-- Parameters of the width of a slot, of one byte and of eight bytes. -/
def mixedRequest : Request :=
  ⟨5, [.ofInt (-2) 4, .ofInt (-1) 1, .ofNat 0x80000000 8, .ofInt 100 1, .ofNat 7 8], none⟩

def mixedReceived : Request :=
  ⟨5, [.ofInt (-2) 4, .ofNat 255 4, .ofInt (-0x80000000) 4, .ofNat 100 4, .ofNat 7 4], none⟩

def mixedMessage : Bytes := Container.wrap (requestBody mixedConfig mixedRequest)

theorem signs_of_mixed_parameters :
    ofRequest mixedConfig mixedRequest = .ok mixedMessage ∧
    calls ⟨2, 1, 5⟩ mixedMessage = .ok [⟨mixedConfig, mixedReceived⟩] ∧
    List.Forall₂ (Parameter.Carried 4) mixedRequest.parameters mixedReceived.parameters ∧
    mixedRequest.parameters.map Parameter.signed = [-2, -1, 0x80000000, 100, 7] ∧
    mixedReceived.parameters.map Parameter.signed = [-2, 255, -0x80000000, 100, 7] := by
  have written : ofRequest mixedConfig mixedRequest = .ok mixedMessage := by decide +kernel
  have read : calls ⟨2, 1, 5⟩ mixedMessage = .ok [⟨mixedConfig, mixedReceived⟩] := by
    decide +kernel
  obtain ⟨carried, accepted⟩ := signs_survive_in_the_lower_half written
  obtain ⟨made, found⟩ := accepted ⟨2, 1, 5⟩ (by decide) (by decide) (by decide)
  obtain ⟨received, rfl, slots⟩ := carried _ _ found
  rw [read] at found
  cases found
  exact ⟨written, read, slots, by decide, by decide⟩

/-- Every parameter keeps its signed value on the way. -/
def KeepsSigns (config : Configuration) (request : Request) : Prop :=
  ∀ message limits made, ofRequest config request = .ok message →
    calls limits message = .ok made → ∃ received, made = [⟨config, received⟩] ∧
      received.parameters.map Parameter.signed = request.parameters.map Parameter.signed

/-- A negative number in fewer bytes than a slot has comes back positive. -/
theorem narrow_sign_is_lost :
    ¬KeepsSigns ⟨.four, .eight, .little⟩ ⟨5, [.ofInt (-1) 4], none⟩ := by
  intro keeps
  have fits : Request.Fits ⟨.four, .eight, .little⟩ ⟨5, [.ofInt (-1) 4], none⟩ :=
    ⟨by decide, by decide⟩
  have written := ofRequest_eq_ok fits (by decide)
  have read := calls_of_ofRequest .standard written (by decide) (by decide) (by decide)
  obtain ⟨received, same, signs⟩ := keeps _ _ _ written read
  cases same
  exact absurd signs (by decide)

end Message

end Semihosting
