/-!
# Decimal numbers

Digits are the ASCII digits, and a number may have zeros in front.
-/
namespace Semihosting.Decimal

/-- Whether characters are one or more digits. -/
def isDigits (chars : List Char) : Bool :=
  chars ≠ [] && chars.all Char.isDigit

def ofDigits (digits : List Char) : Nat :=
  Nat.ofDigitChars 10 digits 0

/-- The number below the bound that a text spells, perhaps with a plus sign in front. -/
def parse? (bound : Nat) (text : String) : Option Nat :=
  let digits := match text.toList with
    | '+' :: rest => rest
    | chars => chars
  if isDigits digits && ofDigits digits < bound then some (ofDigits digits) else none

end Semihosting.Decimal
