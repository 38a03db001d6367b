import ProseMap.Binary64.Basic

/-!
# JSON values

A number is an integer or a binary floating point number, and the two stay apart: `1` and
`1.0` are different values. An object is its list of members; where a key repeats, the
last member counts. -/

namespace ProseMap

/-- A number as it was written, as an integer or with a fraction or an exponent. -/
inductive Json.Number where
  | integer (n : Int)
  | float (x : Binary64)
deriving DecidableEq, Repr

inductive Json where
  | null
  | bool (b : Bool)
  | number (n : Json.Number)
  | string (s : String)
  | array (items : List Json)
  | object (members : List (String × Json))

namespace Json

/-- The first natural number that 64 bits do not hold. -/
def wordLimit : Nat := Nat.pow 2 64

/-- A natural number as a JSON integer. -/
def ofNat (n : Nat) : Json :=
  .number (.integer n)

/-- What the members of an object hold under a key. -/
def lookup {α : Type} (key : String) : List (String × α) → Option α
  | [] => none
  | (k, v) :: rest => (lookup key rest).or (if k = key then some v else none)

/-- Puts a member into members of ascending keys, in place of the one with its key. -/
def insertMember {α : Type} (member : String × α) : List (String × α) → List (String × α)
  | [] => [member]
  | head :: rest =>
    if member.1 < head.1 then member :: head :: rest
    else if member.1 = head.1 then member :: rest
    else head :: insertMember member rest

/-- The members that count, in ascending order of their keys. -/
def sortMembers {α : Type} (members : List (String × α)) : List (String × α) :=
  members.foldl (fun sorted member => insertMember member sorted) []

end Json

end ProseMap
