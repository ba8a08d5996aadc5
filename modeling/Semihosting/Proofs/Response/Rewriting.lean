import Semihosting.Proofs.Message.ReplyFraming
import Semihosting.Proofs.Outcomes

/-!
# Responses written back

A response is read from the front of a payload, and the integers of a result come out of it as
64-bit ones. Main result: whatever the bytes are, writing the response puts the same ones into its
frame (`responses_are_written_back`).
-/
namespace Semihosting.Response

open Riff (Frame FourCC)

variable {config : Configuration} {payload : Bytes} {response : Response}

/-- A reader takes so many bytes off the front of a payload, for chunks of one tag: it refuses a
payload with fewer, and what it makes of one with as many is written as the frame of these bytes. -/
structure TakesFront (config : Configuration) (tag : FourCC) (size : Nat)
    (read : Bytes → Except Fault Response) : Prop where
  accepts : ∀ payload, (∃ response, read payload = .ok response) ↔ size ≤ payload.length
  refuses : ∀ payload fault, read payload = .error fault ↔
    payload.length < size ∧ fault = .shortPayload tag size payload.length
  returns : ∀ payload response, read payload = .ok response →
    response.tag = tag ∧ response.encode config = (Frame.mk tag (payload.take size)).bytes

/-- It is enough to know what becomes of payloads that are short and of those that are not. -/
theorem TakesFront.of_cases {tag : FourCC} {size : Nat} {read : Bytes → Except Fault Response}
    (short : ∀ payload, payload.length < size →
      read payload = .error (.shortPayload tag size payload.length))
    (long : ∀ payload, size ≤ payload.length → ∃ response, read payload = .ok response ∧
      response.tag = tag ∧ response.payload config = payload.take size) :
    TakesFront config tag size read := by
  constructor
  · intro payload
    constructor
    · rintro ⟨response, read⟩
      apply Nat.le_of_not_lt
      intro few
      simp [short payload few] at read
    · intro enough
      obtain ⟨response, read, -⟩ := long payload enough
      exact ⟨response, read⟩
  · intro payload fault
    rcases Nat.lt_or_ge payload.length size with few | enough
    · simp [short payload few, few, eq_comm]
    · obtain ⟨response, read, -⟩ := long payload enough
      simp [read, Nat.not_lt_of_ge enough]
  · -- A response that was read came of a long payload, whose front it keeps.
    intro payload response read
    rcases Nat.lt_or_ge payload.length size with few | enough
    · simp [short payload few] at read
    · obtain ⟨found, read', tagged, front⟩ := long payload enough
      rw [read] at read'
      cases read'
      refine ⟨tagged, ?_⟩
      rw [encode, smallFrame_eq, tagged, front]

/-- The integers of a result are written as they stood in the payload. -/
theorem exists_result (enough : 2 * config.intSize.bytes ≤ payload.length) :
    ∃ response, decodeResult config payload = .ok response ∧ response.tag = .retn ∧
      response.payload config = payload.take (2 * config.intSize.bytes) := by
  have positive := config.intSize.bytes_pos
  have narrow := config.intSize.bytes_le
  have front : (payload.take config.intSize.bytes).length = config.intSize.bytes := by
    simp
    omega
  have behind : ((payload.drop config.intSize.bytes).take config.intSize.bytes).length =
      config.intSize.bytes := by
    simp
    omega
  -- Both pieces have the width, so reading extends their signs and writing undoes it.
  have back {piece : Bytes} (width : piece.length = config.intSize.bytes) :
      config.order.writeSigned config.intSize.bytes
        (Int64.ofInt (config.order.readSigned piece)).toInt = piece := by
    rw [ByteOrder.toInt_readSigned _ (by omega) (by omega), ← width]
    exact ByteOrder.writeSigned_readSigned _ (by omega)
  refine ⟨_, if_neg (Nat.not_lt_of_ge enough), rfl, ?_⟩
  simp only [Response.payload, back front, back behind]
  rw [Nat.two_mul, List.take_add]

theorem exists_error (enough : 4 ≤ payload.length) :
    ∃ response, decodeError payload = .ok response ∧ response.tag = .erro ∧
      response.payload config = payload.take 4 := by
  match payload with
  | [] | [_] | [_, _] | [_, _, _] => simp at enough
  | a :: b :: c :: d :: rest =>
    refine ⟨_, rfl, rfl, ?_⟩
    have fits : Bytes.toNat [a, b, c, d] < 256 ^ 4 := Bytes.toNat_lt [a, b, c, d]
    have number : (UInt32.ofNat (Bytes.toNat [a, b, c, d])).toNat = Bytes.toNat [a, b, c, d] :=
      UInt32.toNat_ofNat_of_lt' (Nat.lt_of_lt_of_eq fits (by decide))
    simp only [Response.payload, number]
    exact Bytes.ofNat_toNat [a, b, c, d]

theorem decodeError_of_short (few : payload.length < 4) :
    decodeError payload = .error (.shortPayload .erro 4 payload.length) := by
  match payload with
  | [] | [_] | [_, _] | [_, _, _] => rfl
  | a :: b :: c :: d :: rest =>
    simp only [List.length_cons] at few
    omega

/-- A result takes two integers of the negotiated width off the front of a payload and an error four
bytes. Shorter payloads are refused as incomplete, and what is read from any other is written with
the same bytes, in the negotiated order and whatever their signs, and without those behind. -/
theorem responses_are_written_back (config : Configuration) :
    TakesFront config .retn (2 * config.intSize.bytes) (decodeResult config) ∧
      TakesFront config .erro 4 decodeError := by
  constructor
  · apply TakesFront.of_cases
    · intro payload few
      exact if_pos few
    · intro payload enough
      exact exists_result enough
  · apply TakesFront.of_cases
    · intro payload few
      exact decodeError_of_short few
    · intro payload enough
      exact exists_error enough

/-- A result with a negative value and one byte too many, and an error that lacks a byte. -/
theorem long_result_is_written_back :
    decodeResult ⟨.two, .four, .big⟩ [0xFF, 0x80, 0, 1, 9] = .ok (.result (-128) 1) ∧
    (result (-128) 1).encode ⟨.two, .four, .big⟩ = (Frame.mk .retn [0xFF, 0x80, 0, 1]).bytes ∧
    decodeError [1, 2, 3] = .error (.shortPayload .erro 4 3) := by
  obtain ⟨results, errors⟩ := responses_are_written_back ⟨.two, .four, .big⟩
  have read : decodeResult ⟨.two, .four, .big⟩ [0xFF, 0x80, 0, 1, 9] =
      .ok (.result (-128) 1) := toOption_eq_some_iff.mp (by decide +kernel)
  exact ⟨read, (results.returns _ _ read).2, (errors.refuses _ _).mpr ⟨by decide, rfl⟩⟩

end Semihosting.Response
