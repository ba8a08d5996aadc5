import Semihosting.Bytes

/-!
# Quoted text

Inside quotes, a backslash introduces an escape and control characters may not stand for
themselves. Escapes by number spell the units of UTF-16, so a character outside the basic plane
takes two of them.
-/
namespace Semihosting.Json.Text

/-- The value of a hexadecimal digit of either case. -/
def hexValue? (digit : Char) : Option Nat :=
  if '0' ≤ digit ∧ digit ≤ '9' then some (digit.toNat - '0'.toNat)
  else if 'a' ≤ digit ∧ digit ≤ 'f' then some (digit.toNat - 'a'.toNat + 10)
  else if 'A' ≤ digit ∧ digit ≤ 'F' then some (digit.toNat - 'A'.toNat + 10)
  else none

def unit? (a b c d : Char) : Option Nat := do
  let a ← hexValue? a
  let b ← hexValue? b
  let c ← hexValue? c
  let d ← hexValue? d
  return ((a * 16 + b) * 16 + c) * 16 + d

def escaped? : Char → Option Nat
  | '"' => some 0x22
  | '\\' => some 0x5C
  | '/' => some 0x2F
  | 'b' => some 0x08
  | 'f' => some 0x0C
  | 'n' => some 0x0A
  | 'r' => some 0x0D
  | 't' => some 0x09
  | _ => none

/-- Whether a character may not stand for itself between quotes. -/
def isControl (char : Char) : Bool := char.toNat < 0x20

def prepend (unit : Nat) : Option (List Nat × List Char) → Option (List Nat × List Char) :=
  Option.map fun (units, rest) => (unit :: units, rest)

/-- The units up to the closing quote, and what follows the quote. A character that stands for
itself is its own unit. -/
def scan : List Char → Option (List Nat × List Char)
  | '"' :: rest => some ([], rest)
  | '\\' :: 'u' :: a :: b :: c :: d :: rest =>
    (unit? a b c d).bind fun unit => prepend unit (scan rest)
  | '\\' :: char :: rest => (escaped? char).bind fun unit => prepend unit (scan rest)
  | char :: rest => if isControl char then none else prepend char.toNat (scan rest)
  | [] => none

/-- Whether a unit is the first half of a surrogate pair. -/
def isHigh (unit : Nat) : Bool := 0xD800 ≤ unit && unit ≤ 0xDBFF

/-- Whether a unit is the second half of a surrogate pair. -/
def isLow (unit : Nat) : Bool := 0xDC00 ≤ unit && unit ≤ 0xDFFF

/-- The character that two halves of a surrogate pair stand for. -/
def pair (high low : Nat) : Char :=
  Char.ofNat (0x10000 + (high - 0xD800) * 0x400 + (low - 0xDC00))

/-- The characters that units spell, unless half of a surrogate pair stands alone. -/
def ofUnits? : List Nat → Option (List Char)
  | [] => some []
  | [unit] => if isHigh unit || isLow unit then none else some [Char.ofNat unit]
  | first :: second :: rest =>
    if isHigh first && isLow second then (ofUnits? rest).map (pair first second :: ·)
    else if isHigh first || isLow first then none
    else (ofUnits? (second :: rest)).map (Char.ofNat first :: ·)

/-- A character as it is written between quotes: escaped only where it has to be, by name if its
escape has one. -/
def writeChar (char : Char) : List Char :=
  match char.toNat with
  | 0x22 => ['\\', '"']
  | 0x5C => ['\\', '\\']
  | 0x08 => ['\\', 'b']
  | 0x0C => ['\\', 'f']
  | 0x0A => ['\\', 'n']
  | 0x0D => ['\\', 'r']
  | 0x09 => ['\\', 't']
  | code =>
    if isControl char then '\\' :: 'u' :: '0' :: '0' :: Bytes.hex [UInt8.ofNat code] else [char]

/-- A quoted text. What has no text is written as half of a surrogate pair, which has none
either. -/
def quote : Option String → List Char
  | some text => '"' :: (text.toList.flatMap writeChar ++ ['"'])
  | none => ['"', '\\', 'u', 'd', '8', '0', '0', '"']

theorem exists_of_prepend {unit : Nat} {scanned : Option (List Nat × List Char)} {units : List Nat}
    {rest : List Char} (found : prepend unit scanned = some (units, rest)) :
    ∃ behind, scanned = some (behind, rest) := by
  obtain ⟨⟨behind, _⟩, rfl, same⟩ := Option.map_eq_some_iff.mp found
  cases same
  exact ⟨behind, rfl⟩

theorem length_lt_of_scan {chars rest : List Char} {units : List Nat}
    (scanned : scan chars = some (units, rest)) : rest.length < chars.length := by
  fun_induction scan chars generalizing units with
  | case1 => cases scanned; simp
  | case2 a b c d behind ih =>
    obtain ⟨unit, _, found⟩ := Option.bind_eq_some_iff.mp scanned
    obtain ⟨_, found⟩ := exists_of_prepend found
    have := ih found
    simp only [List.length_cons]
    omega
  | case3 char behind _ ih =>
    obtain ⟨unit, _, found⟩ := Option.bind_eq_some_iff.mp scanned
    obtain ⟨_, found⟩ := exists_of_prepend found
    have := ih found
    simp only [List.length_cons]
    omega
  | case4 => cases scanned
  | case5 char behind _ _ _ _ ih =>
    obtain ⟨_, found⟩ := exists_of_prepend scanned
    have := ih found
    simp only [List.length_cons]
    omega
  | case6 => cases scanned

end Semihosting.Json.Text
