import Semihosting.Json.Token

/-!
# Printing JSON values

A value is printed compactly, as the spellings of its tokens in a row, or over several lines, with
each item and field on a line of its own, indented by two spaces more than its surroundings. Empty
arrays and objects take no second line.
-/
namespace Semihosting.Json

mutual

def tokens : Json → List Token
  | .scalar value => [.atom value]
  | .string text => [.text text]
  | .array [] => [.openArray, .closeArray]
  | .array (item :: items) => .openArray :: (item.tokens ++ itemTokens items)
  | .object [] => [.openObject, .closeObject]
  | .object ((key, value) :: fields) =>
    .openObject :: .text key :: .colon :: (value.tokens ++ fieldTokens fields)

/-- The tokens of the items behind the first, and of the end of the array. -/
def itemTokens : List Json → List Token
  | [] => [.closeArray]
  | item :: items => .comma :: (item.tokens ++ itemTokens items)

/-- The tokens of the fields behind the first, and of the end of the object. -/
def fieldTokens : List (Option String × Json) → List Token
  | [] => [.closeObject]
  | (key, value) :: fields =>
    .comma :: .text key :: .colon :: (value.tokens ++ fieldTokens fields)

end

/-- A value without blanks. -/
def compact (json : Json) : String :=
  String.ofList (json.tokens.flatMap Token.write)

def newline (depth : Nat) : List Char :=
  '\n' :: List.replicate (2 * depth) ' '

mutual

/-- A value over several lines, inside others to the given depth. -/
def lines (depth : Nat) : Json → List Char
  | .scalar value => Token.writeAtom value
  | .string text => Text.quote text
  | .array [] => ['[', ']']
  | .array (item :: items) =>
    '[' :: (newline (depth + 1) ++ item.lines (depth + 1) ++ itemLines depth items)
  | .object [] => ['\x7b', '\x7d']
  | .object ((key, value) :: fields) =>
    '\x7b' :: (newline (depth + 1) ++ Text.quote key ++ [':', ' '] ++ value.lines (depth + 1)
      ++ fieldLines depth fields)

/-- The items behind the first, and the end of the array. -/
def itemLines (depth : Nat) : List Json → List Char
  | [] => newline depth ++ [']']
  | item :: items =>
    ',' :: (newline (depth + 1) ++ item.lines (depth + 1) ++ itemLines depth items)

/-- The fields behind the first, and the end of the object. -/
def fieldLines (depth : Nat) : List (Option String × Json) → List Char
  | [] => newline depth ++ ['\x7d']
  | (key, value) :: fields =>
    ',' :: (newline (depth + 1) ++ Text.quote key ++ [':', ' '] ++ value.lines (depth + 1)
      ++ fieldLines depth fields)

end

def pretty (json : Json) : String :=
  String.ofList (json.lines 0)

end Semihosting.Json
