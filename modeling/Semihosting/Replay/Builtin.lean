import Semihosting.Message.Reply
import Semihosting.Replay.Summary

/-!
# The built-in corpus

Well-formed messages of each kind, replayed when no other corpus is given.
-/
namespace Semihosting.Replay.Builtin

def narrow : Configuration := ⟨.four, .four, .little⟩

def wide : Configuration := ⟨.eight, .eight, .big⟩

/-- A request to write the five bytes of a greeting to the first open file. -/
def greeting : Request where
  opcode := Operation.write.number
  parameters := [.ofNat 1 8, .ofNat 0x80000000 8, .ofNat 5 8]
  data := some [0x68, 0x65, 0x6C, 0x6C, 0x6F]

/-- A container with no chunks, one message for each of two requests, and one reply of each kind. -/
def corpus : Except Fault (List Entry) := do
  let emptyContainer ← Riff.Writer.empty.container .semi
  let errnoCall ← Message.ofRequest narrow (.bare Operation.errorNumber.number)
  let writeCall ← Message.ofRequest wide greeting
  return [
    ⟨"empty_container", emptyContainer⟩,
    ⟨"errno_call", errnoCall⟩,
    ⟨"write_call", writeCall⟩,
    ⟨"return_reply", Message.ofResponse narrow (.result 5 0)⟩,
    ⟨"error_reply",
      Message.ofResponse wide (.error ProtocolCode.unsupportedOperation.number)⟩]

end Semihosting.Replay.Builtin
