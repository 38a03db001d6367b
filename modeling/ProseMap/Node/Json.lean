import ProseMap.Json.Reader
import ProseMap.Node.Basic

/-!
# Document trees in JSON

A node is read from an object with a `type` and a `range`, or from an array of its fields
in order. The texts may be absent or `null`, children and markup may be absent, and
members of other names are passed over. `toJson` saves a tree and leaves out texts and
children that are not there. -/

namespace ProseMap.Node

/-- The fields of a saved node. -/
inductive Field where
  | kind
  | value
  | alt
  | title
  | children
  | range
  | raw
deriving DecidableEq, Repr

namespace Field

def key : Field → String
  | .kind => "type"
  | .value => "value"
  | .alt => "alt"
  | .title => "title"
  | .children => "children"
  | .range => "range"
  | .raw => "raw"

/-- All fields, in the order in which an array holds them. -/
def all : List Field :=
  [.kind, .value, .alt, .title, .children, .range, .raw]

/-- The fields that a saved node cannot do without. -/
def required : List Field :=
  [.kind, .range]

def ofKey? (key : String) : Option Field :=
  all.find? (·.key = key)

end Field

/-! ## Saving -/

/-- The member for a text that is there. -/
def textMember (field : Field) (text : Option String) : List (String × Json) :=
  (text.map fun s => (field.key, Json.string s)).toList

mutual

/-- The saved tree, with the members of each node in ascending order of their keys. -/
def toJson : Node → Json
  | ⟨kind, value, alt, title, children, range, raw⟩ =>
    let saved := toJsonAll children
    .object <|
      textMember .alt alt
        ++ (if saved.isEmpty then [] else [(Field.children.key, .array saved)])
        ++ [(Field.range.key, range.toJson), (Field.raw.key, .string raw)]
        ++ textMember .title title
        ++ [(Field.kind.key, .string kind.name)]
        ++ textMember .value value

def toJsonAll : List Node → List Json
  | [] => []
  | node :: rest => toJson node :: toJsonAll rest

end

/-! ## Reading -/

/-- A node that is being read, and the fields read so far. -/
structure Draft where
  seen : List Field := []
  node : Node := { kind := .container, range := ⟨0, 0⟩, raw := "" }

namespace Draft

/-- The node, once its fields are all there. -/
def finish (draft : Draft) (absent : Field → Json.Error) : Except Json.Error Node :=
  match Field.required.find? (· ∉ draft.seen) with
  | some field => .error (absent field)
  | none => .ok draft.node

end Draft

/-- The record that a node is saved as. -/
def expected : Json.Expected :=
  .record "Node" Field.all.length

open Json (Outline Token Source)

mutual

/-- Reads a tree. -/
def read (source : Source) : Outline → Except Json.Error Node
  | .object members ending => do
    let source ← Json.unflawed source.enter
    let draft ← readMembers source {} members
    Json.unflawed ending
    draft.finish fun field => .missingField field.key
  | .array items ending => do
    let source ← Json.unflawed source.enter
    let draft ← readItems source items.length {} Field.all items
    Json.unflawed ending
    draft.finish fun field => .tooShort (Field.all.idxOf field) expected
  | outline => outline.mismatch expected

/-- Reads one field into a node. -/
def readField (source : Source) (node : Node) : Field → Outline → Except Json.Error Node
  | .kind, outline => do return { node with kind := .ofName (← outline.asString) }
  | .value, outline => do return { node with value := ← outline.asOptionalString }
  | .alt, outline => do return { node with alt := ← outline.asOptionalString }
  | .title, outline => do return { node with title := ← outline.asOptionalString }
  | .children, .array items ending => do
    let children ← readAll (← Json.unflawed source.enter) items
    Json.unflawed ending
    return { node with children }
  | .children, outline => outline.mismatch .sequence
  | .range, outline => do return { node with range := ← Span.read source outline }
  | .raw, outline => do return { node with raw := ← outline.asString }

/-- Reads the members of an object in their order. -/
def readMembers (source : Source) (draft : Draft) :
    List (Token String × Outline) → Except Json.Error Draft
  | [] => .ok draft
  | (key, outline) :: rest => do
    match Field.ofKey? (← Json.unflawed key.reading) with
    | none =>
      Json.unflawed outline.skip
      readMembers source draft rest
    | some field =>
      if field ∈ draft.seen then
        throw (.repeatedField field.key)
      let node ← readField source draft.node field outline
      readMembers source ⟨field :: draft.seen, node⟩ rest

/-- Reads the items of an array of `count`, one for each of the fields. -/
def readItems (source : Source) (count : Nat) (draft : Draft) :
    List Field → List Outline → Except Json.Error Draft
  | _, [] => .ok draft
  | [], _ :: _ => .error (source.surplus count)
  | field :: fields, outline :: rest => do
    let node ← readField source draft.node field outline
    readItems source count ⟨field :: draft.seen, node⟩ fields rest

/-- Reads the trees of a list. -/
def readAll (source : Source) : List Outline → Except Json.Error (List Node)
  | [] => .ok []
  | outline :: rest => do
    let node ← read source outline
    return node :: (← readAll source rest)

end

/-- Reads a tree from a JSON value. -/
def ofJson (value : Json) : Except Json.Error Node :=
  read .value (.ofJson value)

/-- Reads a tree from a JSON text. -/
def ofText (text : String) : Except Json.Error Node := do
  let document := Json.Document.ofText text
  let node ← read .wholeText document.outline
  Json.unflawed document.ending
  return node

/-- The message for a document that holds no tree. -/
def loadMessage? (error : Json.Error) : Option String :=
  error.message?.map ("Invalid document tree: " ++ ·)

end ProseMap.Node
