import Semihosting.Configuration
import Semihosting.Riff.Frame

/-!
# Responses

The host answers a call with a result, which is two signed integers of the negotiated width, or
with the number of a protocol error. The chunks of a reply are small, so they are laid out directly
and writing one cannot fail.
-/
namespace Semihosting

open Riff (Chunk FourCC)

/-- The frame of a payload whose size is known to be small. The size field keeps four bytes of the
size. -/
def smallFrame (tag : FourCC) (payload : Bytes) : Bytes :=
  tag.bytes ++ Bytes.ofNat 4 payload.length ++ payload
    ++ if payload.length % 2 = 1 then [0] else []

/-- The host's answer to a call. -/
inductive Response where
  /-- The call was carried out. -/
  | result (value errno : Int64)
  /-- The envelope could not be serviced. -/
  | error (code : UInt32)
  deriving DecidableEq, Repr

namespace Response

def errorPayloadSize : Nat := 4

def tag : Response → FourCC
  | result .. => .retn
  | error _ => .erro

/-- The payload that carries the response. Integers keep the low bytes of their two's complement;
the number of an error is always little-endian. -/
def payload (config : Configuration) : Response → Bytes
  | result value errno =>
    config.order.writeSigned config.intSize.bytes value.toInt
      ++ config.order.writeSigned config.intSize.bytes errno.toInt
  | error code => Bytes.ofNat errorPayloadSize code.toNat

def payloadSize (config : Configuration) : Response → Nat
  | result .. => config.returnPayloadSize
  | error _ => errorPayloadSize

def encode (config : Configuration) (response : Response) : Bytes :=
  smallFrame response.tag (response.payload config)

/-- The result in the payload of a chunk. Bytes behind the two integers are ignored. -/
def decodeResult (config : Configuration) (payload : Bytes) : Except Fault Response :=
  if payload.length < config.returnPayloadSize then
    .error (.shortPayload .retn config.returnPayloadSize payload.length)
  else
    let width := config.intSize.bytes
    let value := config.order.readSigned (payload.take width)
    let errno := config.order.readSigned ((payload.drop width).take width)
    .ok (.result (Int64.ofInt value) (Int64.ofInt errno))

/-- The error in the payload of a chunk. Bytes behind its number are ignored. -/
def decodeError (payload : Bytes) : Except Fault Response :=
  match payload with
  | a :: b :: c :: d :: _ => .ok (.error (UInt32.ofNat (Bytes.toNat [a, b, c, d])))
  | short => .error (.shortPayload .erro errorPayloadSize short.length)

theorem length_payload (config : Configuration) (response : Response) :
    (response.payload config).length = response.payloadSize config := by
  cases response <;>
    simp [payload, payloadSize, Configuration.returnPayloadSize, errorPayloadSize, Nat.two_mul]

theorem payloadSize_le (config : Configuration) (response : Response) :
    response.payloadSize config ≤ 16 := by
  have := config.intSize.bytes_le
  cases response <;> simp [payloadSize, Configuration.returnPayloadSize, errorPayloadSize]
  omega

end Response

end Semihosting
