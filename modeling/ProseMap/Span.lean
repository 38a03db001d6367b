import ProseMap.Json.Decode
import ProseMap.Text.Basic

/-!
# Spans of a source

A span is a half-open range of byte offsets. Nothing forces its ends to be in order; a
span whose ends are the wrong way round is as long as an empty one. -/

namespace ProseMap

/-- The bytes from `start` up to `stop`. -/
structure Span where
  start : Nat
  stop : Nat
deriving DecidableEq, Repr

namespace Span

/-- The width in bytes, zero when the ends are the wrong way round. -/
def length (span : Span) : Nat :=
  span.stop - span.start

def isEmpty (span : Span) : Bool :=
  span.length = 0

/-- Whether both ends of `inner` lie between the ends of `outer`. -/
def contains (outer inner : Span) : Bool :=
  outer.start ≤ inner.start && inner.stop ≤ outer.stop

/-- The part of a text that a span covers, if it can be cut out. -/
def slice? (span : Span) (text : String) : Option String :=
  (Text.slice? text.toList span.start span.stop).map String.ofList

/-- The span moved by `distance` bytes. -/
def shift (distance : Nat) (span : Span) : Span :=
  ⟨span.start + distance, span.stop + distance⟩

/-- The span as log messages show it. -/
def debugText (span : Span) : String :=
  "SourceRange \x7b start: " ++ toString span.start ++ ", end: " ++
    toString span.stop ++ " \x7d"

/-- The span in brackets, open at its end. -/
def text (span : Span) : String :=
  "[" ++ toString span.start ++ ", " ++ toString span.stop ++ ")"

/-! ## JSON form -/

/-- A span is saved as an array of its ends. -/
def toJson (span : Span) : Json :=
  .array [.ofNat span.start, .ofNat span.stop]

def read (source : Json.Source) (outline : Json.Outline) : Except Json.Error Span := do
  let (start, stop) ← outline.asPair source
  return ⟨start, stop⟩

end Span

end ProseMap
