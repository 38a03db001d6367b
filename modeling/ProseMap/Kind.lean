/-!
# Kinds of nodes

Eleven kinds of nodes have names of their own; everything else is a container.
-/

namespace ProseMap

/-- The kind of a node in a document tree. -/
inductive Kind where
  | document
  | paragraph
  | header
  /-- Running text. -/
  | str
  | emphasis
  | strong
  | delete
  /-- A code span inside a line. -/
  | code
  | link
  | image
  /-- Markup of another language, with or without text in it. -/
  | html
  /-- Any other wrapper: a list, a quotation, a table. -/
  | container
deriving DecidableEq, Repr

namespace Kind

def name : Kind → String
  | .document => "Document"
  | .paragraph => "Paragraph"
  | .header => "Header"
  | .str => "Str"
  | .emphasis => "Emphasis"
  | .strong => "Strong"
  | .delete => "Delete"
  | .code => "Code"
  | .link => "Link"
  | .image => "Image"
  | .html => "Html"
  | .container => "Container"

/-- The kind of a name; an unknown name is that of a container. -/
def ofName : String → Kind
  | "Document" => .document
  | "Paragraph" => .paragraph
  | "Header" => .header
  | "Str" => .str
  | "Emphasis" => .emphasis
  | "Strong" => .strong
  | "Delete" => .delete
  | "Code" => .code
  | "Link" => .link
  | "Image" => .image
  | "Html" => .html
  | _ => .container

/-- A kind is found again by its name. -/
@[simp] theorem ofName_name (kind : Kind) : ofName kind.name = kind := by
  cases kind <;> rfl

end Kind

end ProseMap
