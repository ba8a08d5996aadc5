import Semihosting.Proofs.Answers
import Semihosting.Riff.Chunk

/-!
# Operations that can trap

A machine has no result for a slice or an index past the end of its bytes, for a sum that leaves its
word, a difference below zero, a division by zero and a shift by the width of its word. A guarded
reader is written with these operations, so it traps where one of its steps would, and tells the
branches it relies on never taking apart from its checks. Main statement: a guarded reader that goes
along with a plain one can be asked any number of times (`asked_eq`).
-/
namespace Semihosting

open Riff (FourCC Header offsetSpace)

namespace Guarded

/-- An operation without a result. -/
inductive Trap where
  | slice (start stop length : Nat)
  | index (position length : Nat)
  | sum (bits left right : Nat)
  | product (bits left right : Nat)
  | difference (left right : Nat)
  | division (left right : Nat)
  | shift (places : Nat)
  /-- The content of a slot does not fit it. -/
  | misfit (raw width : Nat)
  deriving DecidableEq, Repr

inductive Stop where
  /-- A check refuses the input. -/
  | refused (fault : Fault)
  /-- A branch is taken that the checks before it are meant to exclude. -/
  | fallback (fault : Fault)
  | trapped (trap : Trap)
  deriving DecidableEq, Repr

end Guarded

abbrev Guarded (α : Type) : Type := Except Guarded.Stop α

namespace Guarded

variable {α β : Type}

def refuse (fault : Fault) : Guarded α := .error (.refused fault)

/-- A reader that takes no guarded step. -/
def plain : Except Fault α → Guarded α
  | .ok value => .ok value
  | .error fault => refuse fault

/-- A refusal becomes a value; everything else that stops a reader still stops it. -/
def settle : Guarded α → Guarded (Except Fault α)
  | .ok value => .ok (.ok value)
  | .error (.refused fault) => .ok (.error fault)
  | .error stop => .error stop

@[simp] theorem ok_bind (value : α) (next : α → Guarded β) :
    ((.ok value : Guarded α) >>= next) = next value := rfl

@[simp] theorem plain_ok (value : α) : plain (.ok value) = .ok value := rfl

/-- A plain reader only ever refuses. -/
theorem plain_ne_fallback (outcome : Except Fault α) (fault : Fault) :
    plain outcome ≠ .error (.fallback fault) := by
  cases outcome <;> simp [plain, refuse]

@[simp] theorem settle_plain (outcome : Except Fault α) : settle (plain outcome) = .ok outcome := by
  cases outcome <;> rfl

theorem eq_ok_of_settle {outcome : Guarded α} {value : α}
    (settled : settle outcome = .ok (.ok value)) : outcome = .ok value := by
  cases outcome with
  | ok found =>
    cases settled
    rfl
  | error stop => cases stop <;> cases settled

/-- A value that is there only inside the bounds. -/
def within (inside : Prop) [Decidable inside] (otherwise : Stop) (value : α) : Guarded α :=
  if inside then .ok value else .error otherwise

theorem within_of {inside : Prop} [Decidable inside] (holds : inside) {otherwise : Stop}
    {value : α} : within inside otherwise value = .ok value :=
  if_pos holds

/-! ### Numbers -/

def sum (bits left right : Nat) : Guarded Nat :=
  within (left + right < 2 ^ bits) (.trapped (.sum bits left right)) (left + right)

def product (bits left right : Nat) : Guarded Nat :=
  within (left * right < 2 ^ bits) (.trapped (.product bits left right)) (left * right)

def difference (left right : Nat) : Guarded Nat :=
  within (right ≤ left) (.trapped (.difference left right)) (left - right)

def quotient (left right : Nat) : Guarded Nat :=
  within (0 < right) (.trapped (.division left right)) (left / right)

def remainder (left right : Nat) : Guarded Nat :=
  within (0 < right) (.trapped (.division left right)) (left % right)

/-- A 64-bit value moved up; the bits that leave the word are lost. -/
def shiftLeft (value places : Nat) : Guarded Nat :=
  within (places < 64) (.trapped (.shift places)) (value * 2 ^ places % UInt64.size)

/-- A signed 64-bit value moved down; its sign moves in. -/
def shiftRight (value : Int) (places : Nat) : Guarded Int :=
  within (places < 64) (.trapped (.shift places)) (value >>> places)

def sum? (left right : Nat) : Option Nat :=
  if left + right < offsetSpace then some (left + right) else none

theorem sum?_of_lt {left right : Nat} (fits : left + right < offsetSpace) :
    sum? left right = some (left + right) :=
  if_pos fits

theorem sum?_of_le {left right : Nat} (wide : offsetSpace ≤ left + right) :
    sum? left right = none :=
  if_neg (Nat.not_lt_of_le wide)

/-! ### Bytes -/

/-- The bytes between two positions; without them, the reader stops in the given way. -/
def cut (otherwise : Stop) (bytes : Bytes) (start stop : Nat) : Guarded Bytes :=
  within (start ≤ stop ∧ stop ≤ bytes.length) otherwise ((bytes.drop start).take (stop - start))

def slice (bytes : Bytes) (start stop : Nat) : Guarded Bytes :=
  cut (.trapped (.slice start stop bytes.length)) bytes start stop

def splitAt (bytes : Bytes) (position : Nat) : Guarded (Bytes × Bytes) :=
  within (position ≤ bytes.length) (.trapped (.slice 0 position bytes.length))
    (bytes.take position, bytes.drop position)

def byteAt (bytes : Bytes) (position : Nat) : Guarded UInt8 :=
  match bytes[position]? with
  | some byte => .ok byte
  | none => .error (.trapped (.index position bytes.length))

def readTag (bytes : Bytes) : Guarded FourCC := do
  let a ← byteAt bytes 0
  let b ← byteAt bytes 1
  let c ← byteAt bytes 2
  let d ← byteAt bytes 3
  .ok ⟨a, b, c, d⟩

def readSize (bytes : Bytes) : Guarded Nat := do
  let e ← byteAt bytes 4
  let f ← byteAt bytes 5
  let g ← byteAt bytes 6
  let h ← byteAt bytes 7
  .ok (Bytes.toNat [e, f, g, h])

theorem readTag_bytes (header : Header) : readTag header.bytes = .ok header.tag := rfl

theorem readSize_bytes {header : Header} (fits : header.size < offsetSpace) :
    readSize header.bytes = .ok header.size := by
  have same : readSize header.bytes = .ok (Bytes.toNat (Bytes.ofNat 4 header.size)) := rfl
  rw [same, Bytes.toNat_ofNat, Nat.mod_eq_of_lt (Nat.lt_of_lt_of_eq fits (by decide))]

theorem readTag_form (form : FourCC) : readTag form.bytes = .ok form := rfl

section

variable {bytes rest : Bytes} {start : Nat} {header : Header}

theorem header_inside (taken : Header.split? (bytes.drop start) = some (header, rest)) :
    start + Header.width ≤ bytes.length := by
  have total := Header.length_of_split? taken
  rw [List.length_drop] at total
  simp only [Header.width] at *
  omega

theorem drop_header (taken : Header.split? (bytes.drop start) = some (header, rest)) :
    bytes.drop (start + Header.width) = rest := by
  rw [← List.drop_drop, Header.eq_of_split? taken]
  exact List.drop_left' header.length_bytes

/-- The first bytes of a region, if a header opens it. -/
theorem cut_header {otherwise : Stop}
    (taken : Header.split? (bytes.drop start) = some (header, rest)) :
    cut otherwise bytes start (start + Header.width) = .ok header.bytes := by
  rw [cut, within_of ⟨Nat.le_add_right _ _, header_inside taken⟩, Header.eq_of_split? taken,
    Nat.add_sub_cancel_left, ← header.length_bytes, List.take_left]

end

/-! ### Runs -/

variable {σ τ : Type}

/-- The answers of a guarded reader that is asked so many times in a row. -/
def asked (next : σ → Guarded (Option (Except Fault α) × σ)) :
    Nat → σ → Guarded (List (Option (Except Fault α)))
  | 0, _ => .ok []
  | calls + 1, state => do
    let (answer, after) ← next state
    let later ← asked next calls after
    .ok (answer :: later)

/-- If each step keeps a guarded reader along with a plain one, so does any number of them. -/
theorem asked_eq {guarded : σ → Guarded (Option (Except Fault α) × σ)}
    {next : τ → Option (Except Fault α) × τ} {Follows : σ → τ → Prop}
    (step : ∀ {state walk}, Follows state walk →
      ∃ after, guarded state = .ok ((next walk).1, after) ∧ Follows after (next walk).2)
    (calls : Nat) {state : σ} {walk : τ} (follows : Follows state walk) :
    asked guarded calls state =
      .ok ((List.range calls).map fun asked =>
        (next ((fun walk => (next walk).2)^[asked] walk)).1) := by
  induction calls generalizing state walk with
  | zero => rfl
  | succ calls ih =>
    obtain ⟨after, answered, follows⟩ := step follows
    rw [asked, answered, ok_bind]
    simp only [ih follows, ok_bind, List.range_succ_eq_map, List.map_cons, List.map_map]
    rfl

end Guarded

end Semihosting
