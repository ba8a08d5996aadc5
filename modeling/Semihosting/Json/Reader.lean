import Semihosting.Json.Token

/-!
# Reading JSON texts

Tokens are read from left to right with the values under construction on a stack, so reading is a
plain recursion over the tokens. Nothing may be left under construction at the end, and nothing may
follow the value.
-/
namespace Semihosting.Json

/-- A value under construction, waiting for one inside it. -/
inductive Pending where
  /-- An array with the items before the one it waits for. -/
  | item (before : List Json)
  /-- An object with the fields before the one it waits for, and the key of that one. -/
  | field (before : List (Option String × Json)) (key : Option String)
  deriving Repr

/-- What may come next. -/
inductive Reader where
  /-- A value; or, directly behind an opening bracket, the end of the array. -/
  | awaitValue (first : Bool) (stack : List Pending)
  /-- A key; or, directly behind an opening brace, the end of the object. -/
  | awaitKey (first : Bool) (before : List (Option String × Json)) (stack : List Pending)
  /-- The colon behind a key. -/
  | awaitColon (before : List (Option String × Json)) (key : Option String) (stack : List Pending)
  /-- Whatever may follow a complete value: a comma, a closing token, or the end of the text. -/
  | behind (complete : Json) (stack : List Pending)
  deriving Repr

namespace Reader

def onValue (first : Bool) (stack : List Pending) : Token → Option Reader
  | .atom value => some (.behind (.scalar value) stack)
  | .text text => some (.behind (.string text) stack)
  | .openArray => some (.awaitValue true (.item [] :: stack))
  | .openObject => some (.awaitKey true [] stack)
  | .closeArray =>
    match first, stack with
    | true, .item before :: stack => some (.behind (.array before) stack)
    | _, _ => none
  | _ => none

def onKey (first : Bool) (before : List (Option String × Json)) (stack : List Pending) :
    Token → Option Reader
  | .text key => some (.awaitColon before key stack)
  | .closeObject => if first then some (.behind (.object before) stack) else none
  | _ => none

def onBehind (complete : Json) : List Pending → Token → Option Reader
  | .item before :: stack, .comma =>
    some (.awaitValue false (.item (before ++ [complete]) :: stack))
  | .item before :: stack, .closeArray => some (.behind (.array (before ++ [complete])) stack)
  | .field before key :: stack, .comma =>
    some (.awaitKey false (before ++ [(key, complete)]) stack)
  | .field before key :: stack, .closeObject =>
    some (.behind (.object (before ++ [(key, complete)])) stack)
  | _, _ => none

def step : Reader → Token → Option Reader
  | .awaitValue first stack, token => onValue first stack token
  | .awaitKey first before stack, token => onKey first before stack token
  | .awaitColon before key stack, .colon => some (.awaitValue false (.field before key :: stack))
  | .awaitColon .., _ => none
  | .behind complete stack, token => onBehind complete stack token

def run : Reader → List Token → Option Reader
  | reader, [] => some reader
  | reader, token :: rest => (reader.step token).bind fun reader => run reader rest

/-- The value that was read, if it is complete and nothing waits for it. -/
def result? : Reader → Option Json
  | .behind complete [] => some complete
  | _ => none

end Reader

def ofTokens? (tokens : List Token) : Option Json :=
  ((Reader.awaitValue false []).run tokens).bind Reader.result?

/-- The value that a text stands for. -/
def read? (text : String) : Option Json :=
  (Token.ofChars? text.toList).bind ofTokens?

end Semihosting.Json
