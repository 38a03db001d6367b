import ProseMap.Excerpt
import ProseMap.Proofs.Slices

/-!
# Trees

Induction over the nodes of a tree, what it means for a node to be in a tree, and the
promises that a parser makes about the trees it builds. -/

namespace ProseMap

theorem Payload.of?_eq_some_iff {field : TextField} {text : Option String}
    {payload : Payload} :
    Payload.of? field text = some payload ↔
      payload.field = field ∧ text = some payload.text ∧ payload.text ≠ "" := by
  rw [Payload.of?, Option.map_eq_some_iff]
  constructor
  · rintro ⟨kept, hkept, rfl⟩
    obtain ⟨htext, hne⟩ := Option.filter_eq_some_iff.mp hkept
    exact ⟨rfl, htext, by simpa using hne⟩
  · rintro ⟨rfl, rfl, hne⟩
    exact ⟨payload.text, Option.filter_eq_some_iff.mpr ⟨rfl, by simpa using hne⟩, rfl⟩

namespace Node

/-! ## Induction -/

/-- What holds of a node when it holds of its children holds of every node. -/
theorem induction_on_children {motive : Node → Prop}
    (step : ∀ node, (∀ child ∈ node.children, motive child) → motive node) :
    ∀ node : Node, motive node
  | ⟨kind, value, alt, title, children, range, raw⟩ =>
    step ⟨kind, value, alt, title, children, range, raw⟩ fun child hchild =>
      have : sizeOf child < sizeOf children := List.sizeOf_lt_of_mem hchild
      induction_on_children step child
termination_by node => sizeOf node
decreasing_by
  rw [Node.mk.sizeOf_spec]
  omega

/-! ## The nodes of a tree -/

theorem preorderAll_eq_flatMap (nodes : List Node) :
    preorderAll nodes = nodes.flatMap preorder := by
  induction nodes with
  | nil => rfl
  | cons node rest ih => rw [preorderAll, ih, List.flatMap_cons]

theorem preorder_eq (node : Node) :
    node.preorder = node :: node.children.flatMap preorder := by
  cases node
  rw [preorder, preorderAll_eq_flatMap]

/-- A tree has its root, and what the trees below the root have. -/
theorem mem_preorder_iff {node root : Node} :
    node ∈ root.preorder ↔
      node = root ∨ ∃ child ∈ root.children, node ∈ child.preorder := by
  rw [preorder_eq, List.mem_cons, List.mem_flatMap]

theorem self_mem_preorder (root : Node) : root ∈ root.preorder :=
  mem_preorder_iff.mpr (.inl rfl)

/-- A tree has every node of the trees in it. -/
theorem mem_preorder_trans {node inner root : Node} (hnode : node ∈ inner.preorder)
    (hinner : inner ∈ root.preorder) : node ∈ root.preorder := by
  induction root using induction_on_children with
  | step root ih =>
    rcases mem_preorder_iff.mp hinner with rfl | ⟨child, hchild, hin⟩
    · exact hnode
    · exact mem_preorder_iff.mpr (.inr ⟨child, hchild, ih child hchild hin⟩)

/-- A tree has the children of its nodes. -/
theorem child_mem_preorder {child parent root : Node} (hchild : child ∈ parent.children)
    (hparent : parent ∈ root.preorder) : child ∈ root.preorder :=
  mem_preorder_trans
    (mem_preorder_iff.mpr (.inr ⟨child, hchild, self_mem_preorder child⟩)) hparent

/-! ## Payloads -/

/-- The text that a node has in a place. -/
def text? (node : Node) : TextField → Option String
  | .value => node.value
  | .alt => node.alt
  | .title => node.title

/-- A payload is the text in its place, and not empty. -/
theorem text?_of_payload {node : Node} {payload : Payload}
    (h : node.payload = some payload) :
    node.text? payload.field = some payload.text ∧ payload.text ≠ "" := by
  have of_field (field : TextField)
      (h : Payload.of? field (node.text? field) = some payload) :
      node.text? payload.field = some payload.text ∧ payload.text ≠ "" := by
    obtain ⟨hfield, htext⟩ := Payload.of?_eq_some_iff.mp h
    rw [hfield]
    exact htext
  simp only [Node.payload, Option.or_eq_some_iff] at h
  rcases h with h | ⟨-, h | ⟨-, h⟩⟩
  · exact of_field .value h
  · exact of_field .alt h
  · split at h
    · cases h
    · exact of_field .title h

/-- A value that is not empty is the payload. -/
theorem payload_of_value {node : Node} {text : String} (h : node.value = some text)
    (hne : text ≠ "") : node.payload = some ⟨.value, text⟩ := by
  have hvalue : Payload.of? .value node.value = some ⟨.value, text⟩ :=
    Payload.of?_eq_some_iff.mpr ⟨rfl, h, hne⟩
  rw [Node.payload, hvalue]
  rfl

/-! ## What a parser promises -/

/-- The markup of every node is what its span covers in the source. -/
def CutFrom (source : String) (root : Node) : Prop :=
  ∀ node ∈ root.preorder, node.range.slice? source = some node.raw

instance (source : String) (root : Node) : Decidable (CutFrom source root) :=
  inferInstanceAs (Decidable (∀ node ∈ root.preorder, _))

/-- The span of every node has its ends in order, and the markup is as long as the
span. -/
def Measured (root : Node) : Prop :=
  ∀ node ∈ root.preorder, node.range.start ≤ node.range.stop ∧ Excerpt.fits node = true

instance (root : Node) : Decidable (Measured root) :=
  inferInstanceAs (Decidable (∀ node ∈ root.preorder, _))

/-- Running text directly in a paragraph reads as it is written. -/
def Verbatim (root : Node) : Prop :=
  ∀ parent ∈ root.preorder, parent.kind = .paragraph → ∀ node ∈ parent.children,
    node.kind = .str → ∀ payload ∈ node.payload, payload.text = node.raw

instance (root : Node) : Decidable (Verbatim root) :=
  inferInstanceAs (Decidable (∀ parent ∈ root.preorder, _))

theorem Measured.size_eq {root node : Node} (h : root.Measured)
    (hnode : node ∈ root.preorder) :
    node.raw.utf8ByteSize = node.range.length :=
  of_decide_eq_true (h node hnode).2

theorem Measured.stop_eq {root node : Node} (h : root.Measured)
    (hnode : node ∈ root.preorder) :
    node.range.start + node.raw.utf8ByteSize = node.range.stop := by
  have hle := (h node hnode).1
  rw [h.size_eq hnode, Span.length]
  omega

/-! ## A document -/

/-- The source of a paragraph with running text, a code span and strong text, the first of
which has a character of two bytes. -/
def sampleSource : String := "é`x`**b**"

def sample : Node :=
  { spanning .document sampleSource ⟨0, 10⟩ with
    children :=
      [{ spanning .paragraph sampleSource ⟨0, 10⟩ with
        children :=
          [{ spanning .str sampleSource ⟨0, 2⟩ with value := some "é" },
           { spanning .code sampleSource ⟨2, 5⟩ with value := some "x" },
           { spanning .strong sampleSource ⟨5, 10⟩ with
            children :=
              [{ spanning .str sampleSource ⟨7, 8⟩ with value := some "b" }] }] }] }

end Node

end ProseMap
