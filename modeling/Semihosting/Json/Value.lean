/-!
# JSON values

The values that JSON texts stand for. Numbers are told apart by how they are written, because only
integer literals are read as integers. Escapes can spell half of a surrogate pair, which is no
character; a string or key that contains one has no text.
-/
namespace Semihosting

/-- A JSON value that is neither a string nor built from others. -/
inductive Json.Scalar where
  | null
  | bool (value : Bool)
  /-- A number written as an integer, `-0` apart. -/
  | integer (value : Int)
  /-- A number written in any other way, as it is written. -/
  | real (literal : List Char)
  deriving DecidableEq, Repr

inductive Json where
  | scalar (value : Json.Scalar)
  /-- A string, and its text if it has one. -/
  | string (text : Option String)
  | array (items : List Json)
  /-- The fields in the order they are written, repeated keys included. -/
  | object (fields : List (Option String × Json))
  deriving Repr

namespace Json

def ofInt (value : Int) : Json := .scalar (.integer value)

def ofNat (value : Nat) : Json := ofInt value

def ofText (text : String) : Json := .string (some text)

def ofFields (fields : List (String × Json)) : Json :=
  .object (fields.map fun (key, value) => (some key, value))

end Json

end Semihosting
