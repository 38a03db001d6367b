import ProseMap.Flattening
import ProseMap.NumberedText
import ProseMap.Position.Request

/-!
# Projections

A projection is the plain text of a document with the way back: offsets and positions in
the text are answered with the offsets and positions that they have in the source.
Positions in the source need its whole text, which is given or, if the root starts at
offset zero, is the root's own markup. -/

namespace ProseMap

/-- A document's plain text, its segments, and the source if it is known. -/
structure Projection where
  generated : NumberedText
  map : SourceMap
  source : Option NumberedText

namespace Projection

/-- What a projection can be told about its document. -/
structure Options where
  /-- The whole source text. -/
  source : Option String := none
  redactor : Option Redactor := none

namespace Options

/-- The options as log messages show them: the length of the source, and whether there is
a redactor. -/
def debugText (options : Options) : String :=
  let source := match options.source with
    | some text => "Some(" ++ toString text.utf8ByteSize ++ ")"
    | none => "None"
  let redactor := if options.redactor.isSome then "true" else "false"
  "StringSourceOptions \x7b source_text: " ++ source ++ ", replacer: " ++
    redactor ++ " \x7d"

/-- The source text, as far as the options and the root tell it. -/
def sourceText (options : Options) (root : Node) : Option String :=
  options.source.or (if root.range.start = 0 then some root.raw else none)

/-- The redactor that is at work. -/
def activeRedactor (options : Options) : Redactor :=
  options.redactor.getD .keep

end Options

/-- The projection of a flattened tree. -/
def ofFlattening (flattening : Flattening) (source : Option String) : Projection where
  generated := .of flattening.text
  map := flattening.map
  source := source.map .of

/-- The projection of a tree. -/
def ofRoot (root : Node) : Projection :=
  ofFlattening (.ofRoot root) (Options.sourceText {} root)

/-- The projection of a tree with a source text or a redactor. -/
def build (root : Node) (options : Options) : Except Refusal Projection := do
  let flattening ← match options.redactor with
    | some redactor => Flattening.ofRedacted redactor root
    | none => pure (Flattening.ofRoot root)
  return ofFlattening flattening (options.sourceText root)

/-! ## From the text to the source -/

/-- The segment to which a generated offset belongs. -/
def segmentAt? (projection : Projection) (offset : Nat) (bias : Bias) : Option Segment :=
  projection.map.segmentAt? offset bias

/-- The source offset of a generated offset. -/
def offsetOfOffset? (projection : Projection) (offset : Nat) (bias : Bias) : Option Nat :=
  projection.map.sourceOffset? offset bias

/-- The source position of a source offset, if the source is known. -/
def sourcePosition? (projection : Projection) (offset : Nat) : Option Position := do
  (← projection.source).position? offset

/-- The source position of a generated offset. -/
def positionOfOffset? (projection : Projection) (offset : Nat) (bias : Bias) :
    Option Position := do
  projection.sourcePosition? (← projection.offsetOfOffset? offset bias)

/-- The source offset of a generated position. -/
def offsetOfPosition? (projection : Projection) (position : Position) (bias : Bias) :
    Option Nat := do
  projection.offsetOfOffset? (← projection.generated.offset? position) bias

/-- The source position of a generated position. -/
def positionOfPosition? (projection : Projection) (position : Position) (bias : Bias) :
    Option Position := do
  projection.sourcePosition? (← projection.offsetOfPosition? position bias)

/-- The source position that a JSON value asks for. -/
def positionOfRequest (projection : Projection) (value : Json) :
    Except Position.Malformed (Option Position) := do
  let position ← Position.ofRequest value
  return position.bind fun position => projection.positionOfPosition? position .start

/-! ## Events -/

/-- The events that close the building of a projection. -/
def closingEvents (root : Node) (options : Options) (flattening : Flattening) :
    List Event :=
  (if (options.sourceText root).isSome then []
    else
      [⟨.debug, "No full source text, original positions are unavailable",
        [("root", .string root.kind.name), ("range", .string root.range.debugText)]⟩])
    ++ [⟨.debug, "Built string source",
      [("segments", .ofNat flattening.map.size),
       ("output_len", .ofNat flattening.text.utf8ByteSize)]⟩]

/-- All events of building a projection. A refused redaction ends them. -/
def events (root : Node) (options : Options) : List Event :=
  let trail := Trail.ofRoot options.activeRedactor root
  let closing := match Flattening.ofRedacted options.activeRedactor root with
    | .ok flattening => closingEvents root options flattening
    | .error _ => []
  Trail.events 0 trail ++ closing

end Projection

end ProseMap
