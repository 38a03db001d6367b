import ProseMap.Json.Error
import ProseMap.Json.Outline

/-!
# Reading typed data

Each function walks an outline as far as it needs to and reports the first thing wrong: a
value of the wrong shape, or the flaw at which the text breaks off. A record is an object
of its fields, or an array of them in the order of their declaration. -/

namespace ProseMap.Json

/-- Stops with the flaw of a token or of an ending. -/
def unflawed {α : Type} (result : Except Flaw α) : Except Error α :=
  result.mapError .flaw

namespace Outline

/-- What stands here. Arrays and objects are known by their first character. -/
def found : Outline → Except Flaw Found
  | .null => .ok .null
  | .bool b => .ok (.bool b)
  | .number token => token.reading.map .number
  | .string token => token.reading.map .string
  | .array _ _ => .ok .sequence
  | .object _ _ => .ok .map
  | .flawed flaw => .error flaw

/-- Reports that something else is expected here. -/
def mismatch {α : Type} (outline : Outline) (expected : Expected) : Except Error α := do
  throw (.mismatch (← unflawed outline.found) expected)

def asString : Outline → Except Error String
  | .string token => unflawed token.reading
  | outline => outline.mismatch .string

/-- A string, or nothing where `null` stands. -/
def asOptionalString : Outline → Except Error (Option String)
  | .null => .ok none
  | outline => outline.asString.map some

/-- A natural number of 64 bits. -/
def asWord : Outline → Except Error Nat
  | .number token => do
    match ← unflawed token.reading with
    | .integer n => if 0 ≤ n ∧ n < wordLimit then .ok n.toNat else .error (.notAWord n)
    | .float x => .error (.mismatch (.number (.float x)) .word)
  | outline => outline.mismatch .word

end Outline

/-- Reports an array of `count` elements, more than are wanted. In a text the comma before
the first of them is already wrong. -/
def Source.surplus (count : Nat) : Source → Error
  | .text _ => .flaw .malformed
  | .value => .tooLong count

namespace Outline

/-- Two natural numbers of 64 bits in an array. -/
def asPair (source : Source) : Outline → Except Error (Nat × Nat)
  | .array items ending => do
    let source ← unflawed source.enter
    match items with
    | [] =>
      unflawed ending
      throw (.tooShort 0 .pair)
    | first :: rest =>
      let a ← first.asWord
      match rest with
      | [] =>
        unflawed ending
        throw (.tooShort 1 .pair)
      | second :: rest =>
        let b ← second.asWord
        if !rest.isEmpty then
          throw (source.surplus items.length)
        unflawed ending
        return (a, b)
  | outline => outline.mismatch .pair

/-- Reads the items of an array one by one. -/
def asList {α : Type} (item : Source → Outline → Except Error α) (source : Source) :
    Outline → Except Error (List α)
  | .array items ending => do
    let source ← unflawed source.enter
    let values ← items.mapM (item source)
    unflawed ending
    return values
  | outline => outline.mismatch .sequence

end Outline

/-! ## Records -/

/-- A field by its key, and how it is read into a record that is being filled. -/
structure Field (α : Type) where
  key : String
  fill : Source → Outline → α → Except Error α

/-- A record by its name and its fields in the order of their declaration; all are
required. -/
structure Record (α : Type) where
  name : String
  blank : α
  fields : List (Field α)

namespace Record

variable {α : Type}

def expected (record : Record α) : Expected :=
  .record record.name record.fields.length

/-- Fills in the members of an object in their order, and keeps the keys seen. -/
def readMembers (record : Record α) (source : Source) (seen : List String) (value : α) :
    List (Token String × Outline) → Except Error (List String × α)
  | [] => .ok (seen, value)
  | (key, outline) :: rest => do
    let key ← unflawed key.reading
    match record.fields.find? (·.key = key) with
    | none =>
      unflawed outline.skip
      readMembers record source seen value rest
    | some field =>
      if key ∈ seen then throw (.repeatedField key)
      let value ← field.fill source outline value
      readMembers record source (key :: seen) value rest

/-- Fills in the items of an array of `count`, one for each of the fields. -/
def readItems (source : Source) (count : Nat) (value : α) :
    List (Field α) → List Outline → Except Error (List String × α)
  | _, [] => .ok ([], value)
  | [], _ :: _ => .error (source.surplus count)
  | field :: fields, outline :: rest => do
    let value ← field.fill source outline value
    let (seen, value) ← readItems source count value fields rest
    return (field.key :: seen, value)

/-- Reads a record in either of its two forms. -/
def read (record : Record α) (source : Source) : Outline → Except Error α
  | .object members ending => do
    let source ← unflawed source.enter
    let (seen, value) ← record.readMembers source [] record.blank members
    unflawed ending
    match record.fields.find? (·.key ∉ seen) with
    | some field => throw (.missingField field.key)
    | none => return value
  | .array items ending => do
    let source ← unflawed source.enter
    let (seen, value) ← readItems source items.length record.blank record.fields items
    unflawed ending
    if seen.length < record.fields.length then
      throw (.tooShort seen.length record.expected)
    return value
  | outline => outline.mismatch record.expected

end Record

end ProseMap.Json
