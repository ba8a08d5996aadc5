import Semihosting.Json.Number
import Semihosting.Json.Text

/-!
# Tokens of JSON texts

A text is cut into punctuation, quoted texts and atoms; blanks only separate. An atom is a maximal
run of letters, digits, signs and points, so that nothing can be glued to a number or a word.
-/
namespace Semihosting.Json

inductive Token where
  | openArray
  | closeArray
  | openObject
  | closeObject
  | comma
  | colon
  /-- A quoted text, which may be a value or a key. -/
  | text (content : Option String)
  /-- A number or a word. -/
  | atom (value : Scalar)
  deriving DecidableEq, Repr

namespace Token

/-- Whether a character only separates tokens. -/
def isBlank (char : Char) : Bool :=
  char = ' ' || char = '\n' || char = '\r' || char = '\t'

def isAtomic (char : Char) : Bool :=
  char.isAlphanum || char = '+' || char = '-' || char = '.'

/-- The token that a character is on its own. -/
def punctuation? : Char → Option Token
  | '[' => some openArray
  | ']' => some closeArray
  | '\x7b' => some openObject
  | '\x7d' => some closeObject
  | ',' => some comma
  | ':' => some colon
  | _ => none

def atom? (chars : List Char) : Option Scalar :=
  if chars = ['n', 'u', 'l', 'l'] then some .null
  else if chars = ['t', 'r', 'u', 'e'] then some (.bool true)
  else if chars = ['f', 'a', 'l', 's', 'e'] then some (.bool false)
  else Number.ofChars? chars

def ofChars? : List Char → Option (List Token)
  | [] => some []
  | char :: rest =>
    if isBlank char then ofChars? rest
    else if char = '"' then
      match _scanned : Text.scan rest with
      | none => none
      | some (units, behind) =>
        (ofChars? behind).map (text ((Text.ofUnits? units).map String.ofList) :: ·)
    else if isAtomic char then
      -- The whole run is judged at once: nothing may be glued to a number or a word.
      (atom? (char :: rest.takeWhile isAtomic)).bind fun value =>
        (ofChars? (rest.dropWhile isAtomic)).map (atom value :: ·)
    else
      (punctuation? char).bind fun token => (ofChars? rest).map (token :: ·)
termination_by chars => chars.length
decreasing_by
  · simp
  · exact Nat.lt_succ_of_lt (Text.length_lt_of_scan _scanned)
  · exact Nat.lt_succ_of_le (List.dropWhile_suffix isAtomic).length_le
  · simp

def writeAtom : Scalar → List Char
  | .null => ['n', 'u', 'l', 'l']
  | .bool true => ['t', 'r', 'u', 'e']
  | .bool false => ['f', 'a', 'l', 's', 'e']
  | .integer value => Number.write value
  | .real literal => literal

def write : Token → List Char
  | openArray => ['[']
  | closeArray => [']']
  | openObject => ['\x7b']
  | closeObject => ['\x7d']
  | comma => [',']
  | colon => [':']
  | text content => Text.quote content
  | atom value => writeAtom value

end Token

end Semihosting.Json
