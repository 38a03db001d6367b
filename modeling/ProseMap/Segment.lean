import ProseMap.Span

/-!
# Segments

A segment is one run of generated text with the place it came from: the span of the whole
markup, inside it the span of the text alone, and the span that the run has in the
generated text. -/

namespace ProseMap

/-- Decides for an offset between two runs to which of them it belongs. -/
inductive Bias where
  /-- To the run that starts there. -/
  | start
  /-- To the run that stops there; made for the end of a match. -/
  | stop
deriving DecidableEq, Repr

/-- A run of generated text. -/
structure Segment where
  /-- The markup in the source, delimiters included. -/
  markup : Span
  /-- The text in the source, without its delimiters. -/
  content : Span
  /-- The run in the generated text. -/
  generated : Span
  text : String
deriving DecidableEq, Repr

namespace Segment

/-- Whether a generated offset belongs to the segment. -/
def holds (segment : Segment) (offset : Nat) : Bias → Bool
  | .start => segment.generated.start ≤ offset && offset < segment.generated.stop
  | .stop => segment.generated.start < offset && offset ≤ segment.generated.stop

/-- The source offset of a generated one. The way into the segment is at most as long as
the text in the source, which a mask can have made narrower or wider. -/
def sourceOffset (segment : Segment) (offset : Nat) : Nat :=
  let padding := segment.content.start - segment.markup.start
  let distance := min (offset - segment.generated.start) segment.content.length
  segment.markup.start + padding + distance

/-- The segment on one line. -/
def display (segment : Segment) : String :=
  "original " ++ segment.markup.text ++ " intermediate " ++ segment.content.text
    ++ " generated " ++ segment.generated.text ++ " " ++ Text.quoted segment.text

/-! ## JSON form -/

def toJson (segment : Segment) : Json :=
  .object
    [("generated", segment.generated.toJson),
     ("intermediate", segment.content.toJson),
     ("original", segment.markup.toJson),
     ("text", .string segment.text)]

/-- The record that a segment is read from. -/
def record : Json.Record Segment where
  name := "Segment"
  blank := ⟨⟨0, 0⟩, ⟨0, 0⟩, ⟨0, 0⟩, ""⟩
  fields :=
    [⟨"original", fun source outline s => do
        return { s with markup := ← Span.read source outline }⟩,
     ⟨"intermediate", fun source outline s => do
        return { s with content := ← Span.read source outline }⟩,
     ⟨"generated", fun source outline s => do
        return { s with generated := ← Span.read source outline }⟩,
     ⟨"text", fun _ outline s => do return { s with text := ← outline.asString }⟩]

end Segment

end ProseMap
