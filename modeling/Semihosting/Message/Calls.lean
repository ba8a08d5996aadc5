import Semihosting.Message.Decoder
import Semihosting.Request.Encode

/-!
# Request messages

The target sends its calls in a message: a configuration and the calls made under it. A message is
written with one call; one that is read may hold any number, and change the configuration between
them.
-/
namespace Semihosting.Message

open Riff (Writer)

/-- The message that announces a configuration and makes one call. -/
def ofRequest (config : Configuration) (request : Request) : Except Fault Bytes :=
  (Writer.empty.push .cnfg config.payload).bind fun writer =>
    (request.write config writer).bind fun writer => writer.container .semi

def noteCall (calls : List Call) : Event → List Call
  | .call call => calls ++ [call]
  | _ => calls

/-- The calls in a message, in wire order. The responses in it are read and passed over. -/
def calls (limits : Limits) (buffer : Bytes) : Except Fault (List Call) :=
  (Decoder.ofMessage limits buffer).bind fun decoder => decoder.fold noteCall []

end Semihosting.Message
