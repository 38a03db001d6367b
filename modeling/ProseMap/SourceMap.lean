import ProseMap.Bisect
import ProseMap.Segment

/-!
# Source maps

A source map is the table of a generated text's segments, in the order of the text.
Looking an offset up is a bisection: the first segment that reaches past the offset is the
only one that can hold it. -/

namespace ProseMap

/-- The segments of a generated text. -/
structure SourceMap where
  segments : Array Segment := #[]
deriving DecidableEq, Repr

namespace SourceMap

def empty : SourceMap := ⟨#[]⟩

def size (map : SourceMap) : Nat :=
  map.segments.size

def isEmpty (map : SourceMap) : Bool :=
  map.segments.isEmpty

def toList (map : SourceMap) : List Segment :=
  map.segments.toList

/-- The length of the generated text up to the last segment. -/
def generatedLength (map : SourceMap) : Nat :=
  map.segments.back?.elim 0 (·.generated.stop)

/-- Appends a run of text directly after the last one. An empty run is left out. -/
def push (map : SourceMap) (markup content : Span) (text : String) : SourceMap :=
  if text.isEmpty then
    map
  else
    let start := map.generatedLength
    ⟨map.segments.push ⟨markup, content, ⟨start, start + text.utf8ByteSize⟩, text⟩⟩

/-- Whether a segment stops too early to hold an offset. -/
def stopsBefore (offset : Nat) : Bias → Segment → Bool
  | .start => fun segment => segment.generated.stop ≤ offset
  | .stop => fun segment => segment.generated.stop < offset

/-- The segment to which a generated offset belongs. -/
def segmentAt? (map : SourceMap) (offset : Nat) (bias : Bias) : Option Segment :=
  map.segments[bisect (stopsBefore offset bias) map.segments]?.filter
    (·.holds offset bias)

/-- The source offset of a generated one. -/
def sourceOffset? (map : SourceMap) (offset : Nat) (bias : Bias) : Option Nat :=
  (map.segmentAt? offset bias).map (·.sourceOffset offset)

/-! ## Appending -/

/-- An empty run changes nothing. -/
@[simp] theorem push_empty (map : SourceMap) (markup content : Span) :
    map.push markup content "" = map := rfl

/-- A run becomes a segment that starts where the table ended and is as long as its
text. -/
theorem toList_push (map : SourceMap) (markup content : Span) {text : String}
    (h : text ≠ "") :
    (map.push markup content text).toList =
      map.toList ++ [⟨markup, content,
        ⟨map.generatedLength, map.generatedLength + text.utf8ByteSize⟩, text⟩] := by
  simp [push, toList, h]

/-- The table grows by the length of the run. -/
@[simp] theorem generatedLength_push (map : SourceMap) (markup content : Span)
    (text : String) :
    (map.push markup content text).generatedLength =
      map.generatedLength + text.utf8ByteSize := by
  by_cases h : text = ""
  · simp [h]
  · simp [push, h, generatedLength]

/-- The last segment stops where the table ends. -/
theorem stop_of_mem_getLast? {map : SourceMap} {segment : Segment}
    (h : segment ∈ map.toList.getLast?) :
    segment.generated.stop = map.generatedLength := by
  rw [toList, Array.getLast?_toList, Option.mem_def] at h
  rw [generatedLength, h]
  rfl

/-! ## JSON form -/

def toJson (map : SourceMap) : Json :=
  .object [("segments", .array (map.toList.map Segment.toJson))]

/-- The record that a source map is read from. -/
def record : Json.Record SourceMap where
  name := "SegmentTable"
  blank := empty
  fields :=
    [⟨"segments", fun source outline _ => do
        return ⟨(← outline.asList Segment.record.read source).toArray⟩⟩]

def ofJson (value : Json) : Except Json.Error SourceMap :=
  record.read .value (.ofJson value)

end SourceMap

end ProseMap
