import ProseMap.Node.Basic

/-!
# Excerpts

An excerpt is a payload with the place where it stands in the source. Running text stands
exactly in its own span. Any other payload is looked for in the markup of a container, and
what is left of the markup on both sides of it is its padding. -/

namespace ProseMap

/-- How the place of a payload is known. -/
inductive Placement where
  /-- The payload fills the span of its node. -/
  | direct
  /-- The payload was found inside the markup of a container. -/
  | padded
deriving DecidableEq, Repr

/-- A payload and where it stands in the source. -/
structure Excerpt where
  placement : Placement
  /-- The markup, delimiters included. -/
  markup : Span
  /-- The text inside the markup. -/
  content : Span
  text : String
deriving DecidableEq, Repr

/-- Why a payload has no place in its container. -/
inductive Skip where
  /-- The markup of the container does not have the text in it. -/
  | notFound (kind : Kind) (payload : String)
  /-- The markup is so much longer than the span that the text would lie outside. -/
  | outside (kind : Kind) (range : Span)
deriving DecidableEq, Repr

namespace Excerpt

/-- Where a text starts in markup. An occurrence at the very start counts only if there is
no other, so that an opening delimiter is not taken for the text. -/
def find? (needle : List Char) : List Char → Option Nat
  | [] => Text.find? needle []
  | c :: cs =>
    ((Text.find? needle cs).map (c.utf8Size + ·)).or
      (if needle.isPrefixOf (c :: cs) then some 0 else none)

/-- The span of a text inside the markup of a container: the container's span without the
padding on the left and on the right. -/
def locate (container : Node) (needle : String) : Except Skip Span :=
  match find? needle.toList container.raw.toList with
  | none => .error (.notFound container.kind needle)
  | some left =>
    let right := container.raw.utf8ByteSize - (left + needle.utf8ByteSize)
    let start := container.range.start + left
    if start + right ≤ container.range.stop then
      .ok ⟨start, container.range.stop - right⟩
    else
      .error (.outside container.kind container.range)

/-- Whether the markup of a node is as long as its span. -/
def fits (container : Node) : Bool :=
  container.raw.utf8ByteSize = container.range.length

/-- The text to look for in the source when a node yields `payload`. A redacted text still
stands there as it was before. -/
def needle (node : Node) (payload : Payload) : String :=
  match node.payload with
  | some source => if source.field = payload.field then source.text else payload.text
  | none => payload.text

end Excerpt

end ProseMap
