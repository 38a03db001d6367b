import ProseMap.Node.Basic
import ProseMap.Text.Quoted

/-!
# Redactions

A redaction hides the value of a node before the document is flattened: it masks every
character, or it clears the value. It never looks at any other node. -/

namespace ProseMap

/-- A way to hide a value. -/
inductive Redaction where
  /-- Puts a symbol in the place of each character. -/
  | mask (symbol : Char)
  /-- Leaves an empty value. -/
  | clear
deriving DecidableEq, Repr

/-- Chooses a redaction for a node, which it sees together with the node's parent. -/
abbrev Redactor := (node parent : Node) → Option Redaction

/-- Why a redaction is refused. -/
inductive Refusal where
  /-- A mask is exactly one character. -/
  | badSymbol (symbol : String)
  /-- A node without a value has nothing to mask. -/
  | noValue (kind : Kind)
deriving DecidableEq, Repr

namespace Refusal

def message : Refusal → String
  | .badSymbol symbol =>
    "Mask symbol should be a single character, got " ++ Text.quoted symbol
  | .noValue kind => "Cannot mask " ++ kind.name ++ " node: it does not have a value"

end Refusal

namespace Redactor

/-- Leaves every node as it is. -/
def keep : Redactor := fun _ _ => none

end Redactor

namespace Redaction

/-- The mask with a symbol that is one character. -/
def ofSymbol (symbol : String) : Except Refusal Redaction :=
  match symbol.toList with
  | [c] => .ok (.mask c)
  | _ => .error (.badSymbol symbol)

/-- As many symbols as the text has characters. -/
def masked (symbol : Char) (text : String) : String :=
  String.ofList (text.toList.map fun _ => symbol)

/-- A mask keeps the number of characters. -/
@[simp] theorem length_masked (symbol : Char) (text : String) :
    (masked symbol text).length = text.length := by
  simp [masked, ← String.length_toList]

/-- The node with its value hidden. Clearing does nothing to a node without a value. -/
def apply (redaction : Redaction) (node : Node) : Except Refusal Node :=
  match redaction, node.value with
  | .mask symbol, some value => .ok { node with value := some (masked symbol value) }
  | .mask _, none => .error (.noValue node.kind)
  | .clear, some _ => .ok { node with value := some "" }
  | .clear, none => .ok node

/-- Redactions one after the other, each on what the one before left. -/
def applyAll (redactions : List Redaction) (node : Node) : Except Refusal Node :=
  redactions.foldlM (fun node redaction => redaction.apply node) node

end Redaction

end ProseMap
