import Semihosting.Replay.Generator

/-!
# Mutations

Inputs are varied at random: a size-like window is overwritten, the end is cut off, bytes are
appended, or one byte is changed.
-/
namespace Semihosting.Replay

variable [Generator]

/-- A computation that draws from the generator. -/
abbrev Draw := StateM Generator.State

/-- Draws a value that is likely to upset a size check. -/
def hostileSize : Draw UInt32 := do
  match ← Generator.way with
  | 0 => return 0xFFFFFFFF
  | 1 => return 0
  | 2 => return 0xFFFFFFF0
  | 3 => Generator.word

/-- Overwrites four bytes somewhere with a hostile little-endian size. -/
def overwriteWindow (input : Bytes) : Draw Bytes := do
  let position ← Generator.upTo (input.length - 4)
  let size ← hostileSize
  return input.take position ++ Bytes.ofNat 4 size.toNat ++ input.drop (position + 4)

def cutEnd (input : Bytes) (room : 0 < input.length) : Draw Bytes := do
  let length ← Generator.between 0 input.length room
  return input.take length

def appendBytes (input : Bytes) : Draw Bytes := do
  let count ← Generator.between 1 16 (by decide)
  let tail ← Generator.bytes count
  return input ++ tail

/-- Flips at least one bit of one byte, if there is a byte. -/
def flipByte (input : Bytes) : Draw Bytes := do
  -- A position is drawn even if there is no byte, a mask only if there is one.
  let position ← Generator.between 0 (Nat.max input.length 1) (Nat.le_max_right input.length 1)
  if position < input.length then
    let mask ← Generator.mask
    return input.modify position fun byte => byte ^^^ mask
  else
    return input

/-- Varies an input in one of four ways. An input too short for the drawn way has a byte flipped
instead. -/
def mutate (input : Bytes) : Draw Bytes := do
  match ← Generator.way with
  | 0 => if 4 ≤ input.length then overwriteWindow input else flipByte input
  | 1 => if room : 0 < input.length then cutEnd input room else flipByte input
  | 2 => appendBytes input
  | 3 => flipByte input

end Semihosting.Replay
