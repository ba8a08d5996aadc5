import Semihosting.Message.Decoder

/-!
# Reply messages

The host answers in a message of its own, which repeats the configuration in front of the response.
The layout of a reply is fixed up to the width of integers, so it is written directly.
-/
namespace Semihosting

open Riff (FourCC)

structure Reply where
  /-- The last configuration, if there was one. -/
  config : Option Configuration
  /-- The responses in wire order. -/
  responses : List Response
  deriving DecidableEq, Repr

def Reply.empty : Reply := ⟨none, []⟩

namespace Message

/-- The body of a message that repeats a configuration and carries a response. -/
def replyBody (config : Configuration) (response : Response) : Bytes :=
  smallFrame .cnfg config.payload ++ response.encode config

/-- The message that repeats a configuration and carries a response. -/
def ofResponse (config : Configuration) (response : Response) : Bytes :=
  let body := FourCC.semi.bytes ++ replyBody config response
  FourCC.riff.bytes ++ Bytes.ofNat 4 body.length ++ body

/-- Takes note of an event, unless it is a call. -/
def noteReply (reply : Reply) : Event → Reply
  | .configured config => { reply with config := some config }
  | .response response => { reply with responses := reply.responses ++ [response] }
  | .call _ => reply

/-- The reply in a message. The calls in it are read and passed over. -/
def reply (limits : Limits) (buffer : Bytes) : Except Fault Reply :=
  (Decoder.ofMessage limits buffer).bind fun decoder => decoder.fold noteReply .empty

end Message

end Semihosting
