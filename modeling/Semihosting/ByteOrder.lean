import Semihosting.Bytes

/-!
# Byte order of payload integers

A peer writes the integers inside payloads in the order it negotiated. Frame sizes are always
little-endian and do not depend on it. Main statements: reading written bytes gives the value
modulo `256 ^ n` (`read_write`), and writing what at most eight bytes spell gives them back
(`write_read`).
-/
namespace Semihosting

/-- The order in which the bytes of a payload integer are sent. -/
inductive ByteOrder where
  /-- Least significant byte first. -/
  | little
  /-- Most significant byte first. -/
  | big
  deriving DecidableEq, Repr

namespace ByteOrder

/-- The byte that names the order on the wire. -/
def code : ByteOrder → UInt8
  | little => 0
  | big => 1

/-- The order a wire byte names; no other byte names one. -/
def ofCode? (code : UInt8) : Option ByteOrder :=
  if code = 0 then some .little else if code = 1 then some .big else none

def name : ByteOrder → String
  | little => "Little"
  | big => "Big"

/-- The bytes with the least significant one first. Applying it twice changes nothing. -/
def arrange : ByteOrder → Bytes → Bytes
  | little, bytes => bytes
  | big, bytes => bytes.reverse

/-- The unsigned integer some bytes spell. Integers have 64 bits, so only the eight least
significant bytes of a longer string count. -/
def read (order : ByteOrder) (bytes : Bytes) : Nat :=
  (order.arrange bytes).toNat % UInt64.size

/-- The low `length` bytes of a value; past the eighth least significant byte a 64-bit value
contributes zeros. -/
def write (order : ByteOrder) (length value : Nat) : Bytes :=
  order.arrange (Bytes.ofNat length value)

/-- The signed integer some bytes spell in two's complement. -/
def readSigned (order : ByteOrder) (bytes : Bytes) : Int :=
  Int.bmod (order.read bytes) (256 ^ bytes.length)

/-- The low `length` bytes of the two's complement of a value. -/
def writeSigned (order : ByteOrder) (length : Nat) (value : Int) : Bytes :=
  order.write length (value % UInt64.size).toNat

@[simp] theorem ofCode?_code (order : ByteOrder) : ofCode? order.code = some order := by
  cases order <;> rfl

theorem ofCode?_eq_some_iff {code : UInt8} {order : ByteOrder} :
    ofCode? code = some order ↔ code = order.code := by
  constructor
  · intro named
    unfold ofCode? at named
    split at named
    next zero => cases named; exact zero
    · split at named
      next one => cases named; exact one
      · cases named
  · rintro rfl
    exact ofCode?_code order

@[simp] theorem arrange_arrange (order : ByteOrder) (bytes : Bytes) :
    order.arrange (order.arrange bytes) = bytes := by
  cases order <;> simp [arrange]

@[simp] theorem length_arrange (order : ByteOrder) (bytes : Bytes) :
    (order.arrange bytes).length = bytes.length := by
  cases order <;> simp [arrange]

@[simp] theorem length_write (order : ByteOrder) (length value : Nat) :
    (order.write length value).length = length := by
  simp [write]

@[simp] theorem length_writeSigned (order : ByteOrder) (length : Nat) (value : Int) :
    (order.writeSigned length value).length = length := by
  simp [writeSigned]

theorem read_lt (order : ByteOrder) (bytes : Bytes) : order.read bytes < UInt64.size :=
  Nat.mod_lt _ (by decide)

/-- A string of at most eight bytes spells its number without loss. -/
theorem read_eq_toNat (order : ByteOrder) {bytes : Bytes} (short : bytes.length ≤ 8) :
    order.read bytes = (order.arrange bytes).toNat := by
  apply Nat.mod_eq_of_lt
  calc (order.arrange bytes).toNat < 256 ^ (order.arrange bytes).length := Bytes.toNat_lt _
    _ ≤ 256 ^ 8 := Nat.pow_le_pow_right (by decide) (by simpa using short)
    _ = UInt64.size := by decide

theorem read_lt_of_length (order : ByteOrder) {bytes : Bytes} (short : bytes.length ≤ 8) :
    order.read bytes < 256 ^ bytes.length := by
  rw [read_eq_toNat order short, ← length_arrange order bytes]
  exact Bytes.toNat_lt _

theorem read_write (order : ByteOrder) (length value : Nat) :
    order.read (order.write length value) = value % 256 ^ length % UInt64.size := by
  rw [read, write, arrange_arrange, Bytes.toNat_ofNat]

/-- An integer has room for eight bytes, so nothing that at most eight bytes hold is lost. -/
theorem read_write_of_le (order : ByteOrder) {length : Nat} (short : length ≤ 8) (value : Nat) :
    order.read (order.write length value) = value % 256 ^ length := by
  rw [read_write]
  apply Nat.mod_eq_of_lt
  calc value % 256 ^ length < 256 ^ length := Nat.mod_lt _ (Nat.pow_pos (by decide))
    _ ≤ 256 ^ 8 := Nat.pow_le_pow_right (by decide) short

theorem write_read (order : ByteOrder) {bytes : Bytes} (short : bytes.length ≤ 8) :
    order.write bytes.length (order.read bytes) = bytes := by
  rw [read_eq_toNat order short, write, ← length_arrange order bytes, Bytes.ofNat_toNat,
    arrange_arrange]

theorem write_mod (order : ByteOrder) (length value : Nat) :
    order.write length (value % 256 ^ length) = order.write length value := by
  rw [write, write, Bytes.ofNat_mod]

end ByteOrder

end Semihosting
