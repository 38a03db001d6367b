import ProseMap.Kind
import ProseMap.Span

/-!
# Document trees

A node has the markup `raw` that its span covers in the source, children, and up to three
texts. Its payload is the text that a reader of the document sees in its place. -/

namespace ProseMap

/-- A node of a document tree. -/
structure Node where
  kind : Kind
  value : Option String := none
  alt : Option String := none
  title : Option String := none
  children : List Node := []
  range : Span
  /-- The source text of the node, markup included. -/
  raw : String

/-- The three places where a node can have text. -/
inductive TextField where
  | value
  | alt
  | title
deriving DecidableEq, Repr

/-- The text of a node and the place it comes from. -/
structure Payload where
  field : TextField
  text : String
deriving DecidableEq, Repr

namespace Payload

/-- Text that is there and not empty. -/
def of? (field : TextField) (text : Option String) : Option Payload :=
  (text.filter (!·.isEmpty)).map (⟨field, ·⟩)

end Payload

namespace TextField

def name : TextField → String
  | .value => "value"
  | .alt => "alt"
  | .title => "title"

end TextField

namespace Node

/-- A node whose markup is what its span covers in `source`, or empty if that cannot be
cut out. -/
def spanning (kind : Kind) (source : String) (range : Span) : Node :=
  { kind, range, raw := (range.slice? source).getD "" }

def hasChildren (node : Node) : Bool :=
  !node.children.isEmpty

/-- The first text that is not empty. The title of a node with children is a remark on
them and no text of its own. -/
def payload (node : Node) : Option Payload :=
  (Payload.of? .value node.value).or <|
    (Payload.of? .alt node.alt).or <|
      if node.hasChildren then none else Payload.of? .title node.title

mutual

/-- A tree and the trees below it, each before its children and these from left to
right. -/
def preorder : Node → List Node
  | ⟨kind, value, alt, title, children, range, raw⟩ =>
    ⟨kind, value, alt, title, children, range, raw⟩ :: preorderAll children

def preorderAll : List Node → List Node
  | [] => []
  | node :: rest => preorder node ++ preorderAll rest

end

/-! ## Equality -/

mutual

/-- Two trees are equal if all their fields are. -/
def decEq : (a b : Node) → Decidable (a = b)
  | ⟨kind, value, alt, title, children, range, raw⟩,
    ⟨kind', value', alt', title', children', range', raw'⟩ =>
    if h : kind = kind' ∧ value = value' ∧ alt = alt' ∧ title = title' ∧ range = range' ∧
        raw = raw' then
      match decEqAll children children' with
      | .isTrue hc => .isTrue (by simp [h, hc])
      | .isFalse hc => .isFalse (by simp [hc])
    else
      .isFalse (by simpa using fun h₁ h₂ h₃ h₄ _ h₅ h₆ => h ⟨h₁, h₂, h₃, h₄, h₅, h₆⟩)

def decEqAll : (as bs : List Node) → Decidable (as = bs)
  | [], [] => .isTrue rfl
  | [], _ :: _ => .isFalse (by simp)
  | _ :: _, [] => .isFalse (by simp)
  | a :: as, b :: bs =>
    match decEq a b with
    | .isTrue ha =>
      match decEqAll as bs with
      | .isTrue has => .isTrue (by rw [ha, has])
      | .isFalse has => .isFalse (by simp [has])
    | .isFalse ha => .isFalse (by simp [ha])

end

instance : DecidableEq Node := decEq

end Node

end ProseMap
