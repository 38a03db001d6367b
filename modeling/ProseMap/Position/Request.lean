import ProseMap.Position

/-!
# Requested positions

A caller without types asks for a position with a JSON object of a `line` and a `column`.
Integers below zero are a position that no text has; anything that is no integer is a
malformed request. -/

namespace ProseMap.Position

/-- Why a JSON value is no position. -/
inductive Malformed where
  | notAnObject (value : Json)
  | missing (key : String)
  | notAnInteger (key : String) (value : Json)

/-- The kind of a value, with its article. -/
def describe : Json → String
  | .null => "null"
  | .bool _ => "a boolean"
  | .number _ => "a number"
  | .string _ => "a string"
  | .array _ => "an array"
  | .object _ => "an object"

namespace Malformed

def reason : Malformed → String
  | .notAnObject value =>
    "expected an object with `line` and `column`, found " ++ describe value
  | .missing key => "missing " ++ Json.Found.ticked key
  | .notAnInteger key value =>
    Json.Found.ticked key ++ " must be an integer, found " ++
      match value with
      | .number n => n.text
      | value => describe value

def message (malformed : Malformed) : String :=
  "Malformed position: " ++ malformed.reason

end Malformed

/-- The integer under a key, if it is not negative. -/
def coordinate (key : String) (members : List (String × Json)) :
    Except Malformed (Option Nat) :=
  match Json.lookup key members with
  | none => .error (.missing key)
  | some (.number (.integer n)) => .ok (if 0 ≤ n then some n.toNat else none)
  | some value => .error (.notAnInteger key value)

/-- The position that a value asks for, the line being looked at first. There is none when
a coordinate is negative. -/
def ofRequest : Json → Except Malformed (Option Position)
  | .object members => do
    let line ← coordinate "line" members
    let column ← coordinate "column" members
    return line.bind fun line => column.map fun column => ⟨line, column⟩
  | value => .error (.notAnObject value)

end ProseMap.Position
