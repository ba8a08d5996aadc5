import Semihosting.Request.Basic
import Semihosting.Riff.Writer

/-!
# Writing calls

A call is written in one canonical shape: the header, one parameter list if there are parameters,
and the data block if there is one. The number of the operation has to fit an integer and every
parameter a slot; nothing is truncated.
-/
namespace Semihosting

open Riff (Writer)

namespace Request

/-- The header of a call. The bytes past the number of the operation are zero. -/
def header (config : Configuration) (opcode : UInt32) : Bytes :=
  config.order.write config.intSize.bytes opcode.toNat
    ++ List.replicate (config.callHeaderWidth - config.intSize.bytes) 0

def writeSlots (config : Configuration) : List Parameter → Except Fault Bytes
  | [] => .ok []
  | parameter :: rest =>
    if 256 ^ config.slotWidth ≤ parameter.raw then
      .error (.invalidField .parameter parameter.raw)
    else
      (writeSlots config rest).map fun slots =>
        config.order.write config.slotWidth parameter.raw ++ slots

/-- Appends a parameter list, unless it is empty. -/
def writeParameters (writer : Writer) (slots : Bytes) : Except Fault Writer :=
  if slots = [] then .ok writer else writer.push .parm slots

def writeData (writer : Writer) : Option Bytes → Except Fault Writer
  | none => .ok writer
  | some data => writer.push .data data

def write (config : Configuration) (request : Request) (writer : Writer) : Except Fault Writer :=
  if 256 ^ config.intSize.bytes ≤ request.opcode.toNat then
    .error (.invalidField .opcode request.opcode.toNat)
  else
    (writeSlots config request.parameters).bind fun slots =>
      writer.pushNested .call (header config request.opcode) fun inner =>
        (writeParameters inner slots).bind fun inner => writeData inner request.data

def encode (config : Configuration) (request : Request) : Except Fault Bytes :=
  (request.write config .empty).map Writer.bytes

end Request

end Semihosting
