import ProseMap.Json.Literal
import ProseMap.Json.Numeral
import ProseMap.Json.Outline

/-!
# Reading JSON texts

`Document.ofText` outlines a text, whatever is wrong with it. `Json.parse` reads the value
that a text stands for. A text is one value with nothing but blanks around it. -/

namespace ProseMap.Json

namespace Outline

/-- A word in front of a text, of which the first letter has been seen. -/
def word (outline : Outline) : List Char → List Char → Outline × Option (List Char)
  | [], rest => (outline, some rest)
  | _ :: _, [] => (.flawed .truncated, none)
  | w :: ws, c :: cs => if w = c then word outline ws cs else (.flawed .malformed, none)

mutual

/-- The value in front of a text and the text after it, if reading does not break off
before. A call costs one unit of fuel, and no two calls in a row take nothing from the
text. -/
def readValue : Nat → List Char → Outline × Option (List Char)
  | 0, _ => (.flawed .malformed, none)
  | fuel + 1, cs =>
    match dropBlanks cs with
    | [] => (.flawed .truncated, none)
    | '[' :: rest =>
      match dropBlanks rest with
      | [] => (.array [] (.error .truncated), none)
      | ']' :: rest => (.array [] (.ok ()), some rest)
      | rest =>
        let (items, ending, rest) := readItems fuel rest
        (.array items ending, rest)
    | '\x7b' :: rest =>
      match dropBlanks rest with
      | '\x7d' :: rest => (.object [] (.ok ()), some rest)
      | rest =>
        let (members, ending, rest) := readMembers fuel rest
        (.object members ending, rest)
    | '"' :: rest =>
      let (token, rest) := Piece.token rest
      (.string token, rest)
    | 'n' :: rest => word .null ['u', 'l', 'l'] rest
    | 't' :: rest => word (.bool true) ['r', 'u', 'e'] rest
    | 'f' :: rest => word (.bool false) ['a', 'l', 's', 'e'] rest
    | c :: rest =>
      if c = '-' || c.isDigit then
        let (token, rest) := Numeral.token (c :: rest)
        (.number token, rest)
      else
        (.flawed .malformed, none)

/-- The items of an array up to its end, of which there is at least one. -/
def readItems : Nat → List Char → List Outline × Except Flaw Unit × Option (List Char)
  | 0, _ => ([], .error .malformed, none)
  | fuel + 1, cs =>
    let (item, rest) := readValue fuel cs
    match rest.map dropBlanks with
    | none => ([item], .error .malformed, none)
    | some [] => ([item], .error .truncated, none)
    | some (']' :: rest) => ([item], .ok (), some rest)
    | some (',' :: rest) =>
      let (items, ending, rest) := readItems fuel rest
      (item :: items, ending, rest)
    | some _ => ([item], .error .malformed, none)

/-- The members of an object up to its end, of which there is at least one. -/
def readMembers :
    Nat → List Char →
      List (Token String × Outline) × Except Flaw Unit × Option (List Char)
  | 0, _ => ([], .error .malformed, none)
  | fuel + 1, cs =>
    match dropBlanks cs with
    | [] => ([], .error .truncated, none)
    | '"' :: rest =>
      let (key, rest) := Piece.token rest
      let (value, rest) :=
        match rest.map dropBlanks with
        | some [] => (Outline.flawed .truncated, none)
        | some (':' :: rest) => readValue fuel rest
        | _ => (Outline.flawed .malformed, none)
      match rest.map dropBlanks with
      | none => ([(key, value)], .error .malformed, none)
      | some [] => ([(key, value)], .error .truncated, none)
      | some ('\x7d' :: rest) => ([(key, value)], .ok (), some rest)
      | some (',' :: rest) =>
        let (members, ending, rest) := readMembers fuel rest
        ((key, value) :: members, ending, rest)
      | some _ => ([(key, value)], .error .malformed, none)
    | _ => ([], .error .malformed, none)

end

mutual

/-- The value that an outline stands for. -/
def toJson (source : Source) : Outline → Except Flaw Json
  | .null => .ok .null
  | .bool b => .ok (.bool b)
  | .number token => token.reading.map .number
  | .string token => token.reading.map .string
  | .array items ending => do
    let items ← toItems (← source.enter) items
    ending
    return .array items
  | .object members ending => do
    let members ← toMembers (← source.enter) members
    ending
    return .object members
  | .flawed flaw => .error flaw

def toItems (source : Source) : List Outline → Except Flaw (List Json)
  | [] => .ok []
  | item :: rest => do
    let item ← toJson source item
    return item :: (← toItems source rest)

def toMembers (source : Source) :
    List (Token String × Outline) → Except Flaw (List (String × Json))
  | [] => .ok []
  | (key, value) :: rest => do
    let key ← key.reading
    let value ← toJson source value
    return (key, value) :: (← toMembers source rest)

end

end Outline

/-- A text in outline: its value, and how it ends after that. -/
structure Document where
  outline : Outline
  /-- Whether only blanks follow the value. -/
  ending : Except Flaw Unit

namespace Document

/-- The outline of a text. Twice its length is fuel enough, since every second call takes
at least one character. -/
def ofText (text : String) : Document :=
  let cs := text.toList
  let (outline, rest) := Outline.readValue (2 * cs.length + 2) cs
  ⟨outline, if (rest.map dropBlanks).getD [] = [] then .ok () else .error .malformed⟩

end Document

/-- Reads the value that a text stands for. -/
def parse (text : String) : Except Flaw Json := do
  let document := Document.ofText text
  let value ← document.outline.toJson .wholeText
  document.ending
  return value

end ProseMap.Json
