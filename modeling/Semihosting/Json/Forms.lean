import Semihosting.Json.Printer
import Semihosting.Json.Reader
import Semihosting.Json.Record
import Semihosting.Limits
import Semihosting.Response

/-!
# JSON forms

Byte orders, configurations, limits and responses can be kept as JSON. Reading one back judges it as
strictly as negotiating it would, so a configuration that was read is as valid as any other.
-/
namespace Semihosting

namespace ByteOrder

def ofName? (name : String) : Option ByteOrder :=
  if name = little.name then some little else if name = big.name then some big else none

def toJson (order : ByteOrder) : Json := .ofText order.name

/-- An order is read from its name, or from an object that gives its name a null. -/
def ofJson? (json : Json) : Option ByteOrder :=
  match json with
  | .string (some name) => ofName? name
  | json =>
    match json.variant? with
    | some (name, .scalar .null) => ofName? name
    | _ => none

end ByteOrder

namespace Configuration

def fieldNames : List String := [Field.intSize.label, Field.ptrSize.label, Field.byteOrder.label]

def toJson (config : Configuration) : Json :=
  .ofFields [
    (Field.intSize.label, .ofNat config.intSize.bytes),
    (Field.ptrSize.label, .ofNat config.ptrSize.bytes),
    (Field.byteOrder.label, config.order.toJson)]

/-- A configuration is read from a record of all its fields, and has to be valid. -/
def ofJson? (json : Json) : Option Configuration :=
  match json.record? fieldNames with
  | some [some intSize, some ptrSize, some order] => do
    let intSize ← intSize.naturalBelow? 256
    let ptrSize ← ptrSize.naturalBelow? 256
    let order ← ByteOrder.ofJson? order
    (make intSize ptrSize order).toOption
  | _ => none

end Configuration

namespace Limits

def fieldNames : List String := ["max_chunks", "max_calls", "max_parameters"]

def toJson (limits : Limits) : Json :=
  .ofFields [
    ("max_chunks", .ofNat limits.maxChunks.toNat),
    ("max_calls", .ofNat limits.maxCalls.toNat),
    ("max_parameters", .ofNat limits.maxParameters.toNat)]

/-- The number below the bound that a field gives, or the standard one if it is left out. -/
def readField (bound standard : Nat) : Option Json → Option Nat
  | none => some standard
  | some json => json.naturalBelow? bound

/-- Limits are read from a record; fields that are left out keep their standard values. -/
def ofJson? (json : Json) : Option Limits :=
  match json.record? fieldNames with
  | some [maxChunks, maxCalls, maxParameters] => do
    let maxChunks ← readField UInt32.size standard.maxChunks.toNat maxChunks
    let maxCalls ← readField UInt64.size standard.maxCalls.toNat maxCalls
    let maxParameters ← readField UInt64.size standard.maxParameters.toNat maxParameters
    return ⟨.ofNat maxChunks, .ofNat maxCalls, .ofNat maxParameters⟩
  | _ => none

end Limits

namespace Response

/-- A response is written as an object whose only key tells a result from an error. -/
def toJson : Response → Json
  | result value errno =>
    .ofFields [("Return", .ofFields [("value", .ofInt value.toInt), ("errno", .ofInt errno.toInt)])]
  | error code => .ofFields [("Error", .ofFields [("code", .ofNat code.toNat)])]

def integer? (json : Json) : Option Int64 :=
  (json.integerWithin? Int64.minValue.toInt Int64.maxValue.toInt).map Int64.ofInt

/-- A response is read from an object with one key, whose value is a record of all fields. -/
def ofJson? (json : Json) : Option Response :=
  match json.variant? with
  | some ("Return", body) =>
    match body.record? ["value", "errno"] with
    | some [some value, some errno] => do
      let value ← integer? value
      let errno ← integer? errno
      return .result value errno
    | _ => none
  | some ("Error", body) =>
    match body.record? ["code"] with
    | some [some code] => (code.naturalBelow? UInt32.size).map fun code => .error (.ofNat code)
    | _ => none
  | _ => none

end Response

end Semihosting
