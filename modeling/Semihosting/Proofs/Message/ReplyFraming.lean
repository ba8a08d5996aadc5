import Semihosting.Message.Reply
import Semihosting.Proofs.Riff.Enclosure
import Semihosting.Proofs.TwosComplement

/-!
# Replies as a writer would frame them

The two chunks of a reply and the container around them are laid out directly, without the checks
and the padding rule of a writer. Main result: the bytes are those of a writer to which the same
payloads are given (`reply_framings_agree`).
-/
namespace Semihosting

open Riff (Container Frame FourCC Header Writer formWidth offsetSpace)

theorem smallFrame_eq (tag : FourCC) (payload : Bytes) :
    smallFrame tag payload = (Frame.mk tag payload).bytes := by
  -- Both pad by one zero exactly if the size is odd.
  have pad : (if payload.length % 2 = 1 then [0] else [] : Bytes) =
      List.replicate (Frame.padding payload.length) 0 := by
    unfold Frame.padding
    rcases Nat.mod_two_eq_zero_or_one payload.length with even | odd
    · simp [even]
    · simp [odd]
  rw [smallFrame, pad]
  rfl

/-- A size field of four bytes keeps every size that is not too large. -/
theorem toNat_size {size : Nat} (small : size < offsetSpace) :
    (Bytes.ofNat 4 size).toNat = size := by
  rw [Bytes.toNat_ofNat]
  exact Nat.mod_eq_of_lt small

theorem Configuration.length_payload_lt (config : Configuration) :
    config.payload.length < offsetSpace := by
  rw [length_payload]
  decide

namespace Response

/-- The frame that carries a response: the value and the error number, as integers in the negotiated
order, or the number of an error, least significant byte first. -/
def frame (config : Configuration) : Response → Frame
  | result value errno =>
    ⟨.retn, config.order.write config.intSize.bytes value.toUInt64.toNat
      ++ config.order.write config.intSize.bytes errno.toUInt64.toNat⟩
  | error code => ⟨.erro, ByteOrder.little.write 4 code.toNat⟩

theorem frame_eq (config : Configuration) (response : Response) :
    response.frame config = ⟨response.tag, response.payload config⟩ := by
  cases response with
  | result value errno => simp only [frame, tag, payload, ByteOrder.writeSigned_toInt]
  | error code => rfl

theorem encode_eq (config : Configuration) (response : Response) :
    response.encode config = (response.frame config).bytes := by
  rw [encode, smallFrame_eq, frame_eq]

theorem length_frame_le (config : Configuration) (response : Response) :
    (response.frame config).payload.length ≤ 16 := by
  rw [frame_eq, length_payload]
  exact response.payloadSize_le config

theorem length_frame_lt (config : Configuration) (response : Response) :
    (response.frame config).payload.length < offsetSpace :=
  Nat.lt_of_le_of_lt (response.length_frame_le config) (by decide)

end Response

namespace Message

def replyFrames (config : Configuration) (response : Response) : List Frame :=
  [⟨.cnfg, config.payload⟩, response.frame config]

theorem replyBody_eq (config : Configuration) (response : Response) :
    replyBody config response = (replyFrames config response).flatMap Frame.bytes := by
  simp [replyBody, replyFrames, smallFrame_eq, Response.encode_eq]

/-- A configuration and a response take up 36 bytes at most. -/
theorem length_replyBody_le (config : Configuration) (response : Response) :
    (replyBody config response).length ≤ 36 := by
  have answer := response.length_frame_le config
  simp only [replyBody_eq, replyFrames, List.flatMap_cons, List.flatMap_nil, List.length_append,
    List.length_nil, Frame.length_bytes, Configuration.length_payload, Configuration.payloadWidth,
    Frame.padding, Header.width]
  omega

theorem length_replyBody_lt (config : Configuration) (response : Response) :
    (replyBody config response).length + formWidth < offsetSpace :=
  Nat.lt_of_le_of_lt (Nat.add_le_add_right (length_replyBody_le config response) formWidth)
    (by decide)

theorem ofResponse_eq (config : Configuration) (response : Response) :
    ofResponse config response = Container.wrap (replyBody config response) := by
  simp [ofResponse, Container.wrap, Header.bytes, formWidth, Nat.add_comm]

/-- A reply that is laid out directly has the bytes that a writer gives it: a frame for the
configuration, a frame for the response, and a container around both. A response on its own is the
single frame that a writer appends. All three sizes are kept whole by the four bytes of their size
fields, the container declares 40 bytes at most, and it is read with a body of all bytes behind the
form type. -/
theorem reply_framings_agree (config : Configuration) (response : Response) :
    ((Writer.empty.push .cnfg config.payload).bind fun writer =>
      (writer.push (response.frame config).tag (response.frame config).payload).bind fun writer =>
        writer.container .semi) = .ok (ofResponse config response) ∧
    Writer.empty.push (response.frame config).tag (response.frame config).payload =
      .ok ⟨response.encode config⟩ ∧
    (Bytes.ofNat 4 config.payload.length).toNat = config.payload.length ∧
    (Bytes.ofNat 4 (response.frame config).payload.length).toNat =
      (response.frame config).payload.length ∧
    (Bytes.ofNat 4 ((replyBody config response).length + formWidth)).toNat =
      (replyBody config response).length + formWidth ∧
    (replyBody config response).length + formWidth ≤ 40 ∧
    Container.read (ofResponse config response) =
      .ok ⟨(replyBody config response).length + formWidth,
        (ofResponse config response).drop Container.headerWidth⟩ := by
  have fits := config.length_payload_lt
  have fits' := response.length_frame_lt config
  have short := length_replyBody_lt config response
  refine ⟨?_, ?_, toNat_size fits, toNat_size fits', toNat_size short, ?_, ?_⟩
  · have body : (Frame.mk .cnfg config.payload).bytes ++ (response.frame config).bytes =
        replyBody config response := by simp [replyBody_eq, replyFrames]
    have closed : (Writer.mk (replyBody config response)).container .semi = _ :=
      Writer.container_semi short
    rw [Writer.push_eq_ok fits]
    simp only [Except.bind, Writer.push_eq_ok fits', Writer.empty, List.nil_append]
    rw [body, closed, ofResponse_eq]
  · rw [Writer.push_eq_ok fits', Response.encode_eq]
    rfl
  · exact Nat.add_le_add_right (length_replyBody_le config response) formWidth
  · have opened := Container.read_wrap [] short
    rw [List.append_nil] at opened
    have behind : (Container.wrap (replyBody config response)).drop Container.headerWidth =
        replyBody config response := List.drop_left' rfl
    rw [ofResponse_eq, opened, behind]

-- Sizes are little-endian in every message; only the two integers are in the negotiated order.
example : ofResponse ⟨.two, .eight, .big⟩ (.result (-2) 5) =
    [0x52, 0x49, 0x46, 0x46, 28, 0, 0, 0, 0x53, 0x45, 0x4D, 0x49,
      0x43, 0x4E, 0x46, 0x47, 4, 0, 0, 0, 2, 8, 1, 0,
      0x52, 0x45, 0x54, 0x4E, 4, 0, 0, 0, 0xFF, 0xFE, 0, 5] := by
  decide

end Message

end Semihosting
