import ProseMap.Json.Flaw
import ProseMap.Json.Basic

/-!
# Outlines

An outline is what a reader of JSON meets, in the order in which it meets it: every member
of an object, also one whose key comes again, and at the end the flaw at which the text
breaks off. Readers of typed data walk an outline, so the first thing wrong in it is what
they report. A value has an outline too, `Outline.ofJson`, and one reader serves texts and
values. -/

namespace ProseMap.Json

/-- A JSON text in reading order. Where an item or a member is broken, nothing comes after
it. -/
inductive Outline where
  | null
  | bool (b : Bool)
  | number (token : Token Number)
  | string (token : Token String)
  | array (items : List Outline) (ending : Except Flaw Unit)
  | object (members : List (Token String × Outline)) (ending : Except Flaw Unit)
  | flawed (flaw : Flaw)

namespace Outline

mutual

/-- Passes over a value, which need not say anything readable. -/
def skip : Outline → Except Flaw Unit
  | .null => .ok ()
  | .bool _ => .ok ()
  | .number token => token.passing
  | .string token => token.passing
  | .array items ending => do skipItems items; ending
  | .object members ending => do skipMembers members; ending
  | .flawed flaw => .error flaw

def skipItems : List Outline → Except Flaw Unit
  | [] => .ok ()
  | item :: rest => do item.skip; skipItems rest

def skipMembers : List (Token String × Outline) → Except Flaw Unit
  | [] => .ok ()
  | (key, value) :: rest => do key.passing; value.skip; skipMembers rest

end

mutual

/-- A value as it is read: an object by its members that count, in ascending order of the
keys. -/
def ofJson : Json → Outline
  | .null => .null
  | .bool b => .bool b
  | .number n => .number (.sound n)
  | .string s => .string (.sound s)
  | .array items => .array (ofItems items) (.ok ())
  | .object members =>
    let sorted := sortMembers (ofMembers members)
    .object (sorted.map fun (key, value) => (.sound key, value)) (.ok ())

def ofItems : List Json → List Outline
  | [] => []
  | item :: rest => ofJson item :: ofItems rest

def ofMembers : List (String × Json) → List (String × Outline)
  | [] => []
  | (key, value) :: rest => (key, ofJson value) :: ofMembers rest

end

end Outline

/-- Where an outline comes from. A text may nest only so deep; a value has no such
limit. -/
inductive Source where
  /-- A text in which arrays and objects may still nest `room` deep. -/
  | text (room : Nat)
  | value
deriving DecidableEq, Repr

namespace Source

/-- A whole text, which may nest 127 deep. -/
def wholeText : Source := .text 127

/-- Goes inside an array or an object. -/
def enter : Source → Except Flaw Source
  | .text 0 => .error .malformed
  | .text (room + 1) => .ok (.text room)
  | .value => .ok .value

end Source

end ProseMap.Json
