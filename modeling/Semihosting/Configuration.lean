import Semihosting.ByteOrder
import Semihosting.Fault
import Semihosting.Riff.Chunk

/-!
# Configurations

The two sides agree on the width of integers, the width of pointers and the byte order before
anything else. A value of this type is valid by construction, so whoever holds one may rely on
widths of one, two, four or eight bytes. Main statement: `make` accepts exactly those widths
(`make_eq_ok_iff`).
-/
namespace Semihosting

open Riff (Chunk)

/-- The width of an integer or a pointer. -/
inductive Width where
  | one
  | two
  | four
  | eight
  deriving DecidableEq, Repr

namespace Width

def bytes : Width → Nat
  | one => 1
  | two => 2
  | four => 4
  | eight => 8

def ofBytes? : Nat → Option Width
  | 1 => some one
  | 2 => some two
  | 4 => some four
  | 8 => some eight
  | _ => none

@[simp] theorem ofBytes?_bytes (width : Width) : ofBytes? width.bytes = some width := by
  cases width <;> rfl

theorem ofBytes?_eq_some_iff {bytes : Nat} {width : Width} :
    ofBytes? bytes = some width ↔ bytes = width.bytes := by
  constructor
  · intro named
    unfold ofBytes? at named
    split at named <;> cases named <;> rfl
  · rintro rfl
    exact ofBytes?_bytes width

theorem bytes_pos (width : Width) : 0 < width.bytes := by cases width <;> decide

theorem bytes_le (width : Width) : width.bytes ≤ 8 := by cases width <;> decide

end Width

/-- What two sides have agreed on. -/
structure Configuration where
  intSize : Width
  ptrSize : Width
  order : ByteOrder
  deriving DecidableEq, Repr

namespace Configuration

/-- The least size of a configuration payload. -/
def payloadWidth : Nat := 4

/-- The least width of the header that opens a call. -/
def minCallHeader : Nat := 4

/-- The width of the given field, or the fault of that field. -/
def checkWidth (field : Field) (bytes : Nat) : Except Fault Width :=
  match Width.ofBytes? bytes with
  | some width => .ok width
  | none => .error (.invalidField field bytes)

/-- The configuration with the given widths in bytes. The integer width is judged first. -/
def make (intSize ptrSize : Nat) (order : ByteOrder) : Except Fault Configuration :=
  (checkWidth .intSize intSize).bind fun intSize =>
    (checkWidth .ptrSize ptrSize).map fun ptrSize => ⟨intSize, ptrSize, order⟩

/-- The width of a parameter slot: it holds an integer or a pointer. -/
def slotWidth (config : Configuration) : Nat :=
  max config.intSize.bytes config.ptrSize.bytes

/-- The width of the header that opens a call. Only its first `intSize` bytes are meaningful. -/
def callHeaderWidth (config : Configuration) : Nat :=
  max minCallHeader config.intSize.bytes

/-- The size of a result: two integers. -/
def returnPayloadSize (config : Configuration) : Nat :=
  2 * config.intSize.bytes

/-- The payload that announces a configuration. The fourth byte is reserved and written as zero. -/
def payload (config : Configuration) : Bytes :=
  [UInt8.ofNat config.intSize.bytes, UInt8.ofNat config.ptrSize.bytes, config.order.code, 0]

/-- The configuration that a chunk announces. The byte order is judged before the widths; the
fourth byte and whatever follows it are ignored. -/
def negotiate (chunk : Chunk) : Except Fault Configuration :=
  if chunk.tag ≠ .cnfg then .error (.invalidField .chunkId chunk.tag.toNat)
  else match chunk.payload with
    | intSize :: ptrSize :: order :: _ :: _ =>
      match ByteOrder.ofCode? order with
      | none => .error (.invalidField .byteOrder order.toNat)
      | some order => make intSize.toNat ptrSize.toNat order
    | short => .error (.shortPayload .cnfg payloadWidth short.length)

theorem make_eq_ok_iff {intSize ptrSize : Nat} {order : ByteOrder} {config : Configuration} :
    make intSize ptrSize order = .ok config ↔
      intSize = config.intSize.bytes ∧ ptrSize = config.ptrSize.bytes ∧ order = config.order := by
  cases config with
  | mk int ptr order' =>
    rw [← Width.ofBytes?_eq_some_iff, ← Width.ofBytes?_eq_some_iff]
    simp only [make, checkWidth]
    cases Width.ofBytes? intSize <;> cases Width.ofBytes? ptrSize <;>
      simp [Except.bind, Except.map]

@[simp] theorem length_payload (config : Configuration) :
    config.payload.length = payloadWidth := rfl

theorem slotWidth_pos (config : Configuration) : 0 < config.slotWidth := by
  have := config.intSize.bytes_pos
  simp only [slotWidth]
  omega

theorem slotWidth_le (config : Configuration) : config.slotWidth ≤ 8 := by
  have := config.intSize.bytes_le
  have := config.ptrSize.bytes_le
  simp only [slotWidth]
  omega

theorem intSize_le_callHeaderWidth (config : Configuration) :
    config.intSize.bytes ≤ config.callHeaderWidth := by
  simp only [callHeaderWidth]
  omega

end Configuration

end Semihosting
