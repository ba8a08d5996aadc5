import Semihosting.Json.Value

/-!
# Records in JSON

A value with named fields is given as an object or as an array of the fields in order. In an object,
fields of other names are passed over whatever their values, but a named field may not be repeated,
and every key has to be a text. An array may stop early but may not go on behind the last field.
-/
namespace Semihosting.Json

/-- The integer that a value is, if it lies between the bounds. -/
def integerWithin? (least greatest : Int) : Json → Option Int
  | .scalar (.integer value) => if least ≤ value ∧ value ≤ greatest then some value else none
  | _ => none

def naturalBelow? (bound : Nat) (json : Json) : Option Nat :=
  (json.integerWithin? 0 ((bound : Int) - 1)).map Int.toNat

/-- The fields with their keys as texts, if every key has one. -/
def keyed? : List (Option String × Json) → Option (List (String × Json))
  | [] => some []
  | (none, _) :: _ => none
  | (some key, value) :: fields => (keyed? fields).map ((key, value) :: ·)

def occurrences (name : String) (fields : List (String × Json)) : Nat :=
  fields.countP fun field => field.1 = name

/-- The values of the named fields in the order of the names, so far as they are given. -/
def record? (names : List String) : Json → Option (List (Option Json))
  | .array items =>
    if items.length ≤ names.length then
      some (items.map some ++ List.replicate (names.length - items.length) none)
    else none
  | .object fields =>
    (keyed? fields).bind fun fields =>
      -- Only the named fields may not be repeated.
      if names.all fun name => occurrences name fields ≤ 1 then
        some (names.map fun name => fields.lookup name)
      else none
  | _ => none

/-- The name and the value of an object's only field. -/
def variant? : Json → Option (String × Json)
  | .object [(some name, value)] => some (name, value)
  | _ => none

end Semihosting.Json
