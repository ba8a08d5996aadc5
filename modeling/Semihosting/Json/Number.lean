import Semihosting.Decimal
import Semihosting.Json.Value

/-!
# Numbers in JSON texts

A number is a whole part without superfluous zeros, perhaps with a sign in front and a fraction and
an exponent behind. Only a whole part with no more than a sign is an integer; the literal `-0` is
not one, since no integer is written so.
-/
namespace Semihosting.Json.Number

open Decimal (isDigits ofDigits)

/-- Whether digits are a whole part: at least one, and no zero in front of others. -/
def isWhole : List Char → Bool
  | [] => false
  | ['0'] => true
  | first :: _ => first ≠ '0'

/-- Whether characters are nothing or an exponent. -/
def isExponent : List Char → Bool
  | [] => true
  | mark :: '+' :: rest => (mark = 'e' || mark = 'E') && isDigits rest
  | mark :: '-' :: rest => (mark = 'e' || mark = 'E') && isDigits rest
  | mark :: rest => (mark = 'e' || mark = 'E') && isDigits rest

/-- Whether characters may follow a whole part: a fraction, an exponent, or both. -/
def isTail : List Char → Bool
  | '.' :: rest => rest.takeWhile Char.isDigit ≠ [] && isExponent (rest.dropWhile Char.isDigit)
  | rest => isExponent rest

/-- The number without a sign that a text spells; `written` is the text with the sign. -/
def unsigned? (negative : Bool) (written text : List Char) : Option Scalar :=
  let whole := text.takeWhile Char.isDigit
  let rest := text.dropWhile Char.isDigit
  if !isWhole whole then none
  else if rest ≠ [] then if isTail rest then some (.real written) else none
  else if negative then
    if whole = ['0'] then some (.real written) else some (.integer (-(ofDigits whole : Int)))
  else some (.integer (ofDigits whole))

def ofChars? : List Char → Option Scalar
  | '-' :: rest => unsigned? true ('-' :: rest) rest
  | text => unsigned? false text text

/-- An integer as it is written: decimal digits with a sign only in front of negative ones. -/
def write : Int → List Char
  | .ofNat value => Nat.toDigits 10 value
  | .negSucc value => '-' :: Nat.toDigits 10 (value + 1)

end Semihosting.Json.Number
