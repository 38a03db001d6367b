import ProseMap.Flattening
import ProseMap.Proofs.Excerpts

/-!
# Walks

What a walk does, said without its recursion. A node is open if the walk goes on to its
children; a leaf is a child of an open node that is left with a payload.
`mem_excerpts_iff` says that the walk emits exactly what `extract` takes out of the
leaves. -/

namespace ProseMap

/-! ## Redactions -/

namespace Redactor

variable {redactor : Redactor} {parent node redacted : Node}

/-- A redaction leaves the node, masks its value, or clears it. -/
theorem redact_eq_ok_iff :
    redactor.redact parent node = .ok redacted ↔
      (redactor node parent = none ∧ redacted = node) ∨
      (∃ symbol value, redactor node parent = some (.mask symbol) ∧
        node.value = some value ∧
        redacted = { node with value := some (Redaction.masked symbol value) }) ∨
      (redactor node parent = some .clear ∧
        redacted = { node with value := node.value.map fun _ => "" }) := by
  obtain ⟨kind, value, alt, title, children, range, raw⟩ := node
  rw [redact]
  cases redactor ⟨kind, value, alt, title, children, range, raw⟩ parent with
  | none => simp [eq_comm]
  | some redaction =>
    cases redaction <;> cases value <;> simp [Redaction.apply, eq_comm]

/-- A redaction is refused exactly if it is a mask for a value that is not there. -/
theorem redact_eq_error_iff {refusal : Refusal} :
    redactor.redact parent node = .error refusal ↔
      (∃ symbol, redactor node parent = some (.mask symbol)) ∧ node.value = none ∧
        refusal = .noValue node.kind := by
  rw [redact]
  cases redactor node parent with
  | none => simp
  | some redaction =>
    cases redaction <;> cases hvalue : node.value <;>
      simp [Redaction.apply, hvalue, eq_comm]

end Redactor

namespace Trail

variable {redactor : Redactor} {root parent node redacted : Node} {payload : Payload}
  {excerpt : Excerpt}

/-! ## Equations -/

theorem walkAll_eq_flatMap (redactor : Redactor) (parent : Node) (nodes : List Node) :
    walkAll redactor parent nodes = nodes.flatMap (walk redactor parent) := by
  induction nodes with
  | nil => rfl
  | cons node rest ih => rw [walkAll, ih, List.flatMap_cons]

theorem walk_of_error {refusal : Refusal}
    (h : redactor.redact parent node = .error refusal) :
    walk redactor parent node = [.consult parent node, .refuse refusal] := by
  cases node
  rw [walk, h]

theorem walk_of_payload (h : redactor.redact parent node = .ok redacted)
    (hp : redacted.payload = some payload) :
    walk redactor parent node = .consult parent node :: extract parent node payload := by
  cases node
  rw [walk, h]
  simp only [hp]

theorem walk_of_no_payload (h : redactor.redact parent node = .ok redacted)
    (hp : redacted.payload = none) :
    walk redactor parent node =
      .consult parent node :: walkAll redactor node node.children := by
  cases node
  rw [walk, h]
  simp only [hp]

/-! ## Walks without a refusal -/

/-- Where a walk refuses nothing, the node has its redaction, and the walks that follow
below it refuse nothing either. -/
theorem redact_of_walk (h : ∀ step ∈ walk redactor parent node, refusal? step = none) :
    ∃ redacted, redactor.redact parent node = .ok redacted ∧
      (redacted.payload = none → ∀ child ∈ node.children,
        ∀ step ∈ walk redactor node child, refusal? step = none) := by
  cases hr : redactor.redact parent node with
  | error refusal =>
    -- a refusal would be a step of the walk
    rw [walk_of_error hr] at h
    cases h (.refuse refusal) (by simp)
  | ok redacted =>
    refine ⟨redacted, rfl, ?_⟩
    intro hp child hchild step hstep
    rw [walk_of_no_payload hr hp, walkAll_eq_flatMap] at h
    exact h step (List.mem_cons_of_mem _ (List.mem_flatMap.mpr ⟨child, hchild, hstep⟩))

theorem walk_of_walkAll {nodes : List Node}
    (h : ∀ step ∈ walkAll redactor parent nodes, refusal? step = none)
    (hnode : node ∈ nodes) :
    ∀ step ∈ walk redactor parent node, refusal? step = none := by
  intro step hstep
  rw [walkAll_eq_flatMap] at h
  exact h step (List.mem_flatMap.mpr ⟨node, hnode, hstep⟩)

/-! ## Open nodes and leaves -/

/-- The nodes to whose children the walk goes on: the root, and below it every node that
has no payload after its redaction. -/
inductive Open (redactor : Redactor) (root : Node) : Node → Prop
  | root : Open redactor root root
  | child {parent node redacted : Node} (hparent : Open redactor root parent)
      (hnode : node ∈ parent.children) (hr : redactor.redact parent node = .ok redacted)
      (hp : redacted.payload = none) : Open redactor root node

/-- A node under an open parent that has a payload after its redaction. -/
structure Leaf (redactor : Redactor) (root parent node : Node) (payload : Payload) :
    Prop where
  parent_open : Open redactor root parent
  mem_children : node ∈ parent.children
  redacted : ∃ redacted, redactor.redact parent node = .ok redacted ∧
    redacted.payload = some payload

theorem Open.mem_preorder (h : Open redactor root node) : node ∈ root.preorder := by
  induction h with
  | root => exact Node.self_mem_preorder root
  | child _ hnode _ _ ih => exact Node.child_mem_preorder hnode ih

theorem Leaf.mem_preorder (h : Leaf redactor root parent node payload) :
    node ∈ root.preorder :=
  Node.child_mem_preorder h.mem_children h.parent_open.mem_preorder

/-- The container of a leaf is a node of the tree. -/
theorem Leaf.container_mem_preorder (h : Leaf redactor root parent node payload) :
    Excerpt.container parent node ∈ root.preorder := by
  rw [Excerpt.container]
  split
  · exact h.mem_preorder
  · exact h.parent_open.mem_preorder

/-- A walk that changes nothing has the nodes with a payload as its leaves. -/
theorem leaf_keep_iff :
    Leaf .keep root parent node payload ↔
      Open .keep root parent ∧ node ∈ parent.children ∧ node.payload = some payload := by
  constructor
  · intro ⟨hopen, hmem, redacted, hr, hp⟩
    cases hr
    exact ⟨hopen, hmem, hp⟩
  · intro ⟨hopen, hmem, hp⟩
    exact ⟨hopen, hmem, node, rfl, hp⟩

/-- What is open below an open node is open. -/
theorem Open.trans (hparent : Open redactor root parent) (h : Open redactor parent node) :
    Open redactor root node := by
  induction h with
  | root => exact hparent
  | child _ hnode hr hp ih => exact ih.child hnode hr hp

/-! ## Excerpts -/

theorem mem_filterMap_excerpt?_iff {steps : List Step} :
    excerpt ∈ steps.filterMap excerpt? ↔ Step.emit excerpt ∈ steps := by
  rw [List.mem_filterMap]
  constructor
  · intro ⟨step, hstep, he⟩
    cases step with
    | emit emitted =>
      cases he
      exact hstep
    | _ => cases he
  · intro h
    exact ⟨_, h, rfl⟩

/-- The excerpts of some children of a node, in the order of the walk. -/
def excerpts (redactor : Redactor) (parent : Node) (nodes : List Node) : List Excerpt :=
  (walkAll redactor parent nodes).filterMap excerpt?

/-- The excerpts of one child: of its own payload, or of the leaves below it. -/
def runs (redactor : Redactor) (parent node : Node) : List Excerpt :=
  (walk redactor parent node).filterMap excerpt?

theorem excerpts_eq_flatMap (redactor : Redactor) (parent : Node) (nodes : List Node) :
    excerpts redactor parent nodes = nodes.flatMap (runs redactor parent) := by
  rw [excerpts, walkAll_eq_flatMap, List.filterMap_flatMap]
  rfl

theorem runs_of_error {refusal : Refusal}
    (h : redactor.redact parent node = .error refusal) :
    runs redactor parent node = [] := by
  rw [runs, walk_of_error h]
  rfl

theorem runs_of_payload (h : redactor.redact parent node = .ok redacted)
    (hp : redacted.payload = some payload) :
    runs redactor parent node = (extract parent node payload).filterMap excerpt? := by
  rw [runs, walk_of_payload h hp]
  rfl

theorem mem_runs_of_payload (h : redactor.redact parent node = .ok redacted)
    (hp : redacted.payload = some payload) :
    excerpt ∈ runs redactor parent node ↔
      Step.emit excerpt ∈ extract parent node payload := by
  rw [runs_of_payload h hp, mem_filterMap_excerpt?_iff]

theorem runs_of_no_payload (h : redactor.redact parent node = .ok redacted)
    (hp : redacted.payload = none) :
    runs redactor parent node = excerpts redactor node node.children := by
  rw [runs, walk_of_no_payload h hp]
  rfl

/-- Whatever is emitted for a child of an open node comes out of a leaf. -/
theorem exists_leaf_of_mem_runs (hparent : Open redactor root parent)
    (hnode : node ∈ parent.children) (h : excerpt ∈ runs redactor parent node) :
    ∃ above leaf payload, Leaf redactor root above leaf payload ∧
      Step.emit excerpt ∈ extract above leaf payload := by
  induction node using Node.induction_on_children generalizing parent with
  | step node ih =>
    cases hr : redactor.redact parent node with
    | error refusal =>
      rw [runs_of_error hr] at h
      cases h
    | ok redacted =>
      cases hp : redacted.payload with
      | some payload =>
        rw [mem_runs_of_payload hr hp] at h
        exact ⟨parent, node, payload, ⟨hparent, hnode, redacted, hr, hp⟩, h⟩
      | none =>
        rw [runs_of_no_payload hr hp, excerpts_eq_flatMap] at h
        obtain ⟨child, hchild, h⟩ := List.mem_flatMap.mp h
        exact ih child hchild (hparent.child hnode hr hp) hchild h

/-- The excerpts at an open node are excerpts of the whole walk. -/
theorem Open.excerpts_subset (h : Open redactor root node) :
    excerpts redactor node node.children ⊆ excerpts redactor root root.children := by
  induction h with
  | root => exact List.Subset.refl _
  | @child parent node redacted _ hnode hr hp ih =>
    refine List.Subset.trans ?_ ih
    intro excerpt hexcerpt
    rw [excerpts_eq_flatMap redactor parent]
    refine List.mem_flatMap.mpr ⟨node, hnode, ?_⟩
    rw [runs_of_no_payload hr hp]
    exact hexcerpt

/-- The walk emits exactly what is taken out of the leaves. -/
theorem mem_excerpts_iff :
    excerpt ∈ excerpts redactor root root.children ↔
      ∃ parent node payload, Leaf redactor root parent node payload ∧
        Step.emit excerpt ∈ extract parent node payload := by
  constructor
  · intro h
    rw [excerpts_eq_flatMap] at h
    obtain ⟨node, hnode, h⟩ := List.mem_flatMap.mp h
    exact exists_leaf_of_mem_runs .root hnode h
  · intro ⟨parent, node, payload, ⟨hopen, hmem, redacted, hr, hp⟩, h⟩
    refine hopen.excerpts_subset ?_
    rw [excerpts_eq_flatMap]
    exact List.mem_flatMap.mpr ⟨node, hmem, (mem_runs_of_payload hr hp).mpr h⟩

/-! ## Refusals -/

/-- A trail without a refusal is not cut short. -/
theorem untilRefusal_eq_self {steps : List Step}
    (h : ∀ step ∈ steps, refusal? step = none) :
    untilRefusal steps = steps := by
  induction steps with
  | nil => rfl
  | cons step rest ih =>
    have hrest := ih fun step hstep => h step (List.mem_cons_of_mem _ hstep)
    have hstep := h step List.mem_cons_self
    cases step with
    | refuse refusal => cases hstep
    | _ => simp only [untilRefusal, hrest]

/-- Cutting a trail short leaves its first refusal in it. -/
theorem findSome?_untilRefusal (steps : List Step) :
    (untilRefusal steps).findSome? refusal? = steps.findSome? refusal? := by
  induction steps with
  | nil => rfl
  | cons step rest ih =>
    cases step with
    | refuse refusal => rfl
    | _ => exact ih

/-- Nothing is refused where every redaction of a child in the tree can be applied. -/
theorem refusal?_of_mem_walk
    (h : ∀ above ∈ root.preorder, ∀ child ∈ above.children,
      ∃ redacted, redactor.redact above child = .ok redacted)
    (hparent : parent ∈ root.preorder) (hnode : node ∈ parent.children) :
    ∀ step ∈ walk redactor parent node, refusal? step = none := by
  induction node using Node.induction_on_children generalizing parent with
  | step node ih =>
    intro step hstep
    obtain ⟨redacted, hr⟩ := h parent hparent node hnode
    cases hp : redacted.payload with
    | some payload =>
      rw [walk_of_payload hr hp] at hstep
      rcases List.mem_cons.mp hstep with rfl | hstep
      · rfl
      · exact refusal?_of_mem_extract hstep
    | none =>
      rw [walk_of_no_payload hr hp, walkAll_eq_flatMap] at hstep
      rcases List.mem_cons.mp hstep with rfl | hstep
      · rfl
      · obtain ⟨child, hchild, hstep⟩ := List.mem_flatMap.mp hstep
        exact ih child hchild (Node.child_mem_preorder hnode hparent) hchild step hstep

theorem refusal?_of_mem_walkAll
    (h : ∀ above ∈ root.preorder, ∀ child ∈ above.children,
      ∃ redacted, redactor.redact above child = .ok redacted) :
    ∀ step ∈ walkAll redactor root root.children, refusal? step = none := by
  intro step hstep
  rw [walkAll_eq_flatMap] at hstep
  obtain ⟨node, hnode, hstep⟩ := List.mem_flatMap.mp hstep
  exact refusal?_of_mem_walk h (Node.self_mem_preorder root) hnode step hstep

/-- Nothing is refused where nothing is redacted. -/
theorem refusal?_of_mem_walkAll_keep (root : Node) :
    ∀ step ∈ walkAll .keep root root.children, refusal? step = none :=
  refusal?_of_mem_walkAll fun _ _ child _ => ⟨child, rfl⟩

end Trail

namespace Flattening

open Trail

/-- A tree is flattened to the excerpts of its walk if that refuses nothing. -/
theorem ofRedacted_eq_ok_iff {redactor : Redactor} {root : Node}
    {flattening : Flattening} :
    ofRedacted redactor root = .ok flattening ↔
      (∀ step ∈ walkAll redactor root root.children, refusal? step = none) ∧
        (excerpts redactor root root.children).foldl emit empty = flattening := by
  simp only [ofRedacted, Trail.ofRoot, findSome?_untilRefusal,
    ← List.findSome?_eq_none_iff]
  cases hsome : (walkAll redactor root root.children).findSome? refusal? with
  | some refusal => simp
  | none =>
    rw [untilRefusal_eq_self (List.findSome?_eq_none_iff.mp hsome)]
    simp [ofTrail, excerpts]

theorem eq_of_ofRedacted {redactor : Redactor} {root : Node} {flattening : Flattening}
    (h : ofRedacted redactor root = .ok flattening) :
    flattening = (excerpts redactor root root.children).foldl emit empty :=
  (ofRedacted_eq_ok_iff.mp h).2.symm

/-- Flattening fails with the first refusal of the walk. -/
theorem ofRedacted_eq_error_iff {redactor : Redactor} {root : Node} {refusal : Refusal} :
    ofRedacted redactor root = .error refusal ↔
      (walkAll redactor root root.children).findSome? refusal? = some refusal := by
  simp only [ofRedacted, Trail.ofRoot, findSome?_untilRefusal]
  cases (walkAll redactor root root.children).findSome? refusal? with
  | some refusal => simp
  | none => simp

/-- The trail of a tree that is not redacted is the whole walk. -/
theorem ofRoot_keep (root : Node) :
    Trail.ofRoot .keep root = walkAll .keep root root.children :=
  untilRefusal_eq_self (refusal?_of_mem_walkAll_keep root)

/-- A tree that is not redacted is flattened to the excerpts of the walk too. -/
theorem ofRoot_eq (root : Node) :
    ofRoot root = (excerpts .keep root root.children).foldl emit empty := by
  rw [ofRoot, ofRoot_keep]
  rfl

/-- A redactor that changes nothing is no redactor. -/
theorem ofRedacted_keep (root : Node) : ofRedacted .keep root = .ok (ofRoot root) :=
  ofRedacted_eq_ok_iff.mpr ⟨refusal?_of_mem_walkAll_keep root, (ofRoot_eq root).symm⟩

end Flattening

end ProseMap
