import ProseMap.Event
import ProseMap.SourceMap
import ProseMap.Trail

/-!
# Flattened documents

Flattening puts the excerpts of a tree one after the other, as text and as segments. The
events of a flattening tell its trail. -/

namespace ProseMap

/-- The plain text of a tree and its segments. -/
structure Flattening where
  text : String := ""
  map : SourceMap := .empty
deriving DecidableEq, Repr

namespace Flattening

def empty : Flattening := {}

/-- Appends an excerpt to the text and to the segments. -/
def emit (flattening : Flattening) (excerpt : Excerpt) : Flattening where
  text := flattening.text ++ excerpt.text
  map := flattening.map.push excerpt.markup excerpt.content excerpt.text

/-- Puts the excerpts of a trail one after the other. -/
def ofTrail (trail : List Step) : Flattening :=
  (trail.filterMap Trail.excerpt?).foldl emit empty

/-- The plain text of a tree. -/
def ofRoot (root : Node) : Flattening :=
  ofTrail (Trail.ofRoot .keep root)

/-- The plain text of a tree whose values are redacted first. -/
def ofRedacted (redactor : Redactor) (root : Node) : Except Refusal Flattening :=
  let trail := Trail.ofRoot redactor root
  match trail.findSome? Trail.refusal? with
  | some refusal => .error refusal
  | none => .ok (ofTrail trail)

end Flattening

/-! ## Events -/

namespace Placement

def name : Placement → String
  | .direct => "Direct"
  | .padded => "Padded"

end Placement

namespace Trail

/-- The events of a trail that starts after `emitted` bytes of generated text. -/
def events (emitted : Nat) : List Step → List Event
  | [] => []
  | .emit excerpt :: rest =>
    ⟨.trace, "Emitting segment",
      [("mode", .string excerpt.placement.name),
       ("original", .string excerpt.markup.debugText),
       ("intermediate", .string excerpt.content.debugText),
       ("generated_start", .ofNat emitted)]⟩
      :: events (emitted + excerpt.text.utf8ByteSize) rest
  | .misfit container :: rest =>
    ⟨.warn, "Raw markup length does not match its range",
      [("kind", .string container.kind.name),
       ("raw_len", .ofNat container.raw.utf8ByteSize),
       ("range", .string container.range.debugText)]⟩
      :: events emitted rest
  | .skip (.notFound kind payload) :: rest =>
    ⟨.warn, "Payload not found in container markup, skipping",
      [("kind", .string kind.name), ("payload", .string payload)]⟩
      :: events emitted rest
  | .skip (.outside kind range) :: rest =>
    ⟨.warn, "Payload falls outside its container range, skipping",
      [("kind", .string kind.name), ("range", .string range.debugText)]⟩
      :: events emitted rest
  | _ :: rest => events emitted rest

end Trail

end ProseMap
