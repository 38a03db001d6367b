import ProseMap.Excerpt
import ProseMap.Redaction

/-!
# Trails

A trail is what happens, step by step, when a tree is walked from left to right for its
payloads: a node is shown to the redactor, then it yields an excerpt, or is skipped, or
its children follow. The root itself yields nothing. `Trail.walk` writes down the whole
walk; `Trail.ofRoot` ends it at the first redaction that is refused. -/

namespace ProseMap

/-- One step of a walk. -/
inductive Step where
  /-- The redactor is asked about a node. -/
  | consult (parent node : Node)
  /-- The redaction it chose cannot be applied. -/
  | refuse (refusal : Refusal)
  /-- The markup of a container is not as long as its span; the search in it goes on. -/
  | misfit (container : Node)
  /-- A payload has no place in the source and is left out. -/
  | skip (reason : Skip)
  /-- A payload is emitted. -/
  | emit (excerpt : Excerpt)

namespace Redactor

/-- The node as the redactor wants it. -/
def redact (redactor : Redactor) (parent node : Node) : Except Refusal Node :=
  match redactor node parent with
  | some redaction => redaction.apply node
  | none => .ok node

end Redactor

namespace Trail

/-- Looks for a payload in a container and emits it from there. -/
def padded (container : Node) (needle text : String) : List Step :=
  (if Excerpt.fits container then [] else [.misfit container]) ++
    match Excerpt.locate container needle with
    | .ok content => [.emit ⟨.padded, container.range, content, text⟩]
    | .error reason => [.skip reason]

/-- Takes a payload out of a node. Running text in a paragraph is its own excerpt; any
other node in a paragraph is the container of its payload, and elsewhere the parent is. -/
def extract (parent node : Node) (payload : Payload) : List Step :=
  match parent.kind, node.kind with
  | .paragraph, .str => [.emit ⟨.direct, node.range, node.range, payload.text⟩]
  | .paragraph, _ => padded node (Excerpt.needle node payload) payload.text
  | _, _ => padded parent (Excerpt.needle node payload) payload.text

mutual

/-- Walks a node below the root. A node that has a payload after its redaction is a
leaf. -/
def walk (redactor : Redactor) (parent : Node) : Node → List Step
  | node@⟨_, _, _, _, children, _, _⟩ =>
    .consult parent node ::
      match redactor.redact parent node with
      | .error refusal => [.refuse refusal]
      | .ok redacted =>
        match redacted.payload with
        | some payload => extract parent node payload
        | none => walkAll redactor node children

def walkAll (redactor : Redactor) (parent : Node) : List Node → List Step
  | [] => []
  | node :: rest => walk redactor parent node ++ walkAll redactor parent rest

end

/-- The steps up to the first refusal, and that. -/
def untilRefusal : List Step → List Step
  | [] => []
  | .refuse refusal :: _ => [.refuse refusal]
  | step :: rest => step :: untilRefusal rest

/-- The walk through a tree, as far as it goes. -/
def ofRoot (redactor : Redactor) (root : Node) : List Step :=
  untilRefusal (walkAll redactor root root.children)

/-- The excerpt that a step emits. -/
def excerpt? : Step → Option Excerpt
  | .emit excerpt => some excerpt
  | _ => none

def refusal? : Step → Option Refusal
  | .refuse refusal => some refusal
  | _ => none

/-- The parent and the node about which a step asks the redactor. -/
def consultation? : Step → Option (Node × Node)
  | .consult parent node => some (parent, node)
  | _ => none

end Trail

end ProseMap
