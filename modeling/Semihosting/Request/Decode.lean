import Semihosting.Request.Basic
import Semihosting.Limits
import Semihosting.Riff.Walk

/-!
# Reading calls

The payload of a call is a header, which holds the number of the operation, and a region of chunks.
Parameter lists and a data block are taken from the region wherever they stand; other chunks are
skipped. The slots of all parameter lists together form one list.
-/
namespace Semihosting

open Riff (Chunk Walk)

namespace Request

/-- Cuts bytes into pieces of the given width. Bytes that fill no piece are left out. -/
def slots (width : Nat) (bytes : Bytes) : List Bytes :=
  if width = 0 ∨ bytes.length < width then []
  else bytes.take width :: slots width (bytes.drop width)
termination_by bytes.length
decreasing_by simp; omega

def readSlots (config : Configuration) (payload : Bytes) : List Parameter :=
  (slots config.slotWidth payload).map fun slot =>
    Parameter.ofNat (config.order.read slot) config.slotWidth

def addParameters (config : Configuration) (limits : Limits) (request : Request)
    (payload : Bytes) : Except Fault Request :=
  if payload.length % config.slotWidth ≠ 0 then
    .error (.raggedParameters payload.length config.slotWidth)
  else if limits.maxParameters.toNat
      < request.parameters.length + payload.length / config.slotWidth then
    .error (.limitExceeded .parameters limits.maxParameters.toNat)
  else
    .ok { request with parameters := request.parameters ++ readSlots config payload }

/-- Gives a request its data block, which it may get only once. -/
def addData (request : Request) (payload : Bytes) : Except Fault Request :=
  match request.data with
  | some _ => .error .duplicateData
  | none => .ok { request with data := some payload }

/-- What one chunk inside a call adds to the request. -/
def absorb (config : Configuration) (limits : Limits) (request : Request) (chunk : Chunk) :
    Except Fault Request :=
  if chunk.tag = .parm then request.addParameters config limits chunk.payload
  else if chunk.tag = .data then request.addData chunk.payload
  else .ok request

def readOpcode (config : Configuration) (payload : Bytes) : Except Fault UInt32 :=
  let opcode := config.order.read (payload.take config.intSize.bytes)
  if opcode < UInt32.size then .ok (UInt32.ofNat opcode) else .error (.invalidField .opcode opcode)

def decode (config : Configuration) (limits : Limits) (payload : Bytes) : Except Fault Request :=
  if payload.length < config.callHeaderWidth then
    .error (.shortPayload .call config.callHeaderWidth payload.length)
  else
    (readOpcode config payload).bind fun opcode =>
      (Walk.start (payload.drop config.callHeaderWidth) limits.maxChunks).fold
        (absorb config limits) (bare opcode)

/-- The request in a chunk, under the configuration in effect if there is one. -/
def decodeChunk (config : Option Configuration) (limits : Limits) (chunk : Chunk) :
    Except Fault Request :=
  match config with
  | none => .error .notConfigured
  | some config =>
    if chunk.tag ≠ .call then .error (.invalidField .chunkId chunk.tag.toNat)
    else decode config limits chunk.payload

theorem slots_nil (width : Nat) : slots width [] = [] := by
  rw [slots]
  by_cases zero : width = 0
  · simp [zero]
  · simp [Nat.pos_of_ne_zero zero]

theorem slots_append {width : Nat} (positive : 0 < width) {slot : Bytes}
    (full : slot.length = width) (rest : Bytes) :
    slots width (slot ++ rest) = slot :: slots width rest := by
  rw [slots]
  have whole : ¬ (width = 0 ∨ (slot ++ rest).length < width) := by simp; omega
  rw [if_neg whole]
  subst full
  simp

end Request

end Semihosting
