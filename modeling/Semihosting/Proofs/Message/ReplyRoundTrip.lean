import Semihosting.Proofs.Message.Reading
import Semihosting.Proofs.Message.ReplyFraming

/-!
# Replies read back

The target reads in a reply what the host wrote, except that the integers of a result come back as
what their width keeps of them. Main result: `reply_message_round_trips`.
-/
namespace Semihosting

open Riff (Container Frame WireFrame)
open Riff.WireFrame (concat)
open TwosComplement (Holds Wraps keep)

variable {config : Configuration} {limits : Limits}

namespace Response

/-- A response with the integers that the negotiated width keeps. -/
def kept (config : Configuration) : Response → Response
  | result value errno =>
    .result (keep config.intSize.bytes value) (keep config.intSize.bytes errno)
  | error code => .error code

/-- What is read of a result is what the integers of the negotiated width keep of it. -/
theorem decodeResult_payload (config : Configuration) (value errno : Int64) :
    decodeResult config ((result value errno).payload config) =
      .ok ((result value errno).kept config) := by
  have enough : ¬((result value errno).payload config).length < config.returnPayloadSize := by
    rw [length_payload]
    exact Nat.lt_irrefl _
  have front := config.order.length_writeSigned config.intSize.bytes value.toInt
  have behind := config.order.length_writeSigned config.intSize.bytes errno.toInt
  have narrow := config.intSize.bytes_le
  rw [decodeResult, if_neg enough]
  simp only [payload]
  rw [List.take_left' front, List.drop_left' front, List.take_of_length_le (Nat.le_of_eq behind),
    ByteOrder.readSigned_writeSigned _ narrow, ByteOrder.readSigned_writeSigned _ narrow]
  rfl

theorem decodeError_payload (config : Configuration) (code : UInt32) :
    decodeError ((error code).payload config) = .ok (.error code) := by
  have same := Bytes.toNat_ofNat 4 code.toNat
  rw [Nat.mod_eq_of_lt code.toNat_lt] at same
  simp only [payload, errorPayloadSize, Bytes.ofNat_succ, Bytes.ofNat_zero] at same ⊢
  rw [decodeError, same, UInt32.ofNat_toNat]

def wire (config : Configuration) (response : Response) : WireFrame :=
  .ofFrame (response.frame config) (response.length_frame_lt config)

/-- The chunk of a response is accepted under the configuration it was written for. -/
theorem accepts {progress : Message.Progress} (known : progress.config = some config)
    (response : Response) :
    progress.Accepts limits ((response.wire config).chunkAt 0)
      (some (.response (response.kept config))) progress := by
  have chunk : (response.wire config).chunkAt 0 = ⟨response.tag, 0, response.payload config⟩ := by
    simp only [wire, WireFrame.ofFrame, WireFrame.chunkAt, frame_eq]
  rw [chunk]
  cases response with
  | result value errno => exact .result rfl known (decodeResult_payload config value errno)
  | error code => exact .error rfl (decodeError_payload config code)

end Response

def Configuration.wire (config : Configuration) : WireFrame :=
  .ofFrame ⟨.cnfg, config.payload⟩ config.length_payload_lt

namespace Message

theorem Progress.accepts_configuration (config : Configuration) (progress : Progress) :
    progress.Accepts limits (config.wire.chunkAt 0) (some (.configured config))
      { progress with config := some config } :=
  .configured rfl (config.negotiate_payload 0)

def replyWires (config : Configuration) (response : Response) : List WireFrame :=
  [config.wire, response.wire config]

theorem framed_ofResponse (config : Configuration) (response : Response) :
    Framed (ofResponse config response) (replyWires config response) [] := by
  have body : concat (replyWires config response) = replyBody config response := by
    rw [replyBody_eq]
    rfl
  constructor
  · rw [body]
    exact length_replyBody_lt config response
  · rw [body, ofResponse_eq, List.append_nil]

theorem reads_replyWires (config : Configuration) (response : Response) :
    Reads limits .start (replyWires config response)
      [.configured config, .response (response.kept config)] ⟨some config, 0⟩ := by
  exact .cons (Progress.accepts_configuration config .start)
    (.cons (response.accepts rfl) (.nil _))

theorem reply_ofResponse (two : 2 ≤ limits.maxChunks.toNat) (response : Response) :
    reply limits (ofResponse config response) = .ok ⟨some config, [response.kept config]⟩ :=
  reply_eq_ok_iff.mpr ⟨_, run_eq_ok_iff.mpr
    ⟨_, _, _, framed_ofResponse config response, two, reads_replyWires config response⟩, rfl⟩

/-- A reply is read, under all limits with room for two chunks, as its configuration and one
response. An error keeps its number. A result comes back with each integer exchanged for the only
one in the range of the negotiated width that is congruent to it, so it is unchanged exactly if that
width holds both. -/
theorem reply_message_round_trips (config : Configuration) (two : 2 ≤ limits.maxChunks.toNat) :
    (∀ code, reply limits (ofResponse config (.error code)) = .ok ⟨some config, [.error code]⟩) ∧
    ∀ value errno, ∃ value' errno',
      reply limits (ofResponse config (.result value errno)) =
        .ok ⟨some config, [.result value' errno']⟩ ∧
      (∀ number, Wraps config.intSize.bytes value.toInt number ↔ number = value'.toInt) ∧
      (∀ number, Wraps config.intSize.bytes errno.toInt number ↔ number = errno'.toInt) ∧
      (Response.result value' errno' = .result value errno ↔
        Holds config.intSize.bytes value.toInt ∧ Holds config.intSize.bytes errno.toInt) := by
  have positive := config.intSize.bytes_pos
  have narrow := config.intSize.bytes_le
  -- The integer that is read is the only one that wraps the one that was sent.
  have unique (value : Int64) (number : Int) : Wraps config.intSize.bytes value.toInt number ↔
      number = (keep config.intSize.bytes value).toInt := by
    rw [TwosComplement.wraps_iff positive, TwosComplement.toInt_keep positive narrow]
  constructor
  · intro code
    exact reply_ofResponse two (.error code)
  · intro value errno
    refine ⟨_, _, reply_ofResponse two (.result value errno), unique value, unique errno, ?_⟩
    rw [Response.result.injEq, TwosComplement.keep_eq_self_iff positive narrow,
      TwosComplement.keep_eq_self_iff positive narrow]

/-- A value that one byte does not hold, and an error number that it does. -/
theorem reply_keeps_low_byte :
    2 ≤ (Limits.mk 2 0 0).maxChunks.toNat ∧
    reply ⟨2, 0, 0⟩ (ofResponse ⟨.one, .eight, .big⟩ (.result 300 (-1))) =
      .ok ⟨some ⟨.one, .eight, .big⟩, [.result 44 (-1)]⟩ ∧
    reply ⟨2, 0, 0⟩ (ofResponse ⟨.one, .eight, .big⟩ (.error 0xFFFFFFFF)) =
      .ok ⟨some ⟨.one, .eight, .big⟩, [.error 0xFFFFFFFF]⟩ := by
  have two : 2 ≤ (Limits.mk 2 0 0).maxChunks.toNat := by decide
  obtain ⟨errors, results⟩ := reply_message_round_trips ⟨.one, .eight, .big⟩ two
  obtain ⟨value, errno, read, low, same, -⟩ := results 300 (-1)
  have wrapped : 44 = value.toInt := (low 44).mp ⟨⟨by decide, by decide⟩, by decide⟩
  have kept : -1 = errno.toInt := (same (-1)).mp ⟨⟨by decide, by decide⟩, by decide⟩
  have value_eq : value = 44 := Int64.toInt_inj.mp wrapped.symm
  have errno_eq : errno = -1 := Int64.toInt_inj.mp kept.symm
  subst value_eq errno_eq
  exact ⟨two, read, errors 0xFFFFFFFF⟩

end Message

end Semihosting
