import ProseMap.Proofs.Tiling

/-!
# Visits

Which nodes the redactor is asked about, said by looking up from each node instead of down
from the root: a node is reached if every node between it and the root is left without a
payload. The walk asks about the reached nodes in preorder and stops behind the first mask
that has no value to hide. -/

namespace ProseMap

/-! ## Places -/

/-- A node below a root, with its parent and the nodes above that, the nearest first. -/
structure Place where
  node : Node
  parent : Node
  above : List Node

namespace Place

mutual

/-- The places of a node and of the nodes below it, in preorder. -/
def within (parent : Node) (above : List Node) : Node → List Place
  | ⟨kind, value, alt, title, children, range, raw⟩ =>
    ⟨⟨kind, value, alt, title, children, range, raw⟩, parent, above⟩ ::
      withinAll ⟨kind, value, alt, title, children, range, raw⟩ (parent :: above) children

def withinAll (parent : Node) (above : List Node) : List Node → List Place
  | [] => []
  | node :: rest => within parent above node ++ withinAll parent above rest

end

/-- All places below a root. -/
def below (root : Node) : List Place :=
  withinAll root [] root.children

theorem withinAll_eq_flatMap (parent : Node) (above nodes : List Node) :
    withinAll parent above nodes = nodes.flatMap (within parent above) := by
  induction nodes with
  | nil => rfl
  | cons node rest ih => rw [withinAll, ih, List.flatMap_cons]

theorem within_eq (parent : Node) (above : List Node) (node : Node) :
    within parent above node =
      ⟨node, parent, above⟩ :: node.children.flatMap (within node (parent :: above)) := by
  cases node
  rw [within, withinAll_eq_flatMap]

/-- The places of a tree are its nodes in preorder. -/
theorem map_node_within (parent : Node) (above : List Node) (node : Node) :
    (within parent above node).map (·.node) = node.preorder := by
  induction node using Node.induction_on_children generalizing parent above with
  | step node ih =>
    rw [within_eq, Node.preorder_eq, List.map_cons, List.map_flatMap]
    congr 1
    exact List.flatMap_congr fun child hchild => ih child hchild node (parent :: above)

/-- The places below a node have it, and all that is above it, above them. -/
theorem suffix_of_mem_within {parent node : Node} {above : List Node} {place : Place}
    (h : place ∈ within parent above node) :
    parent :: above <:+ place.parent :: place.above := by
  induction node using Node.induction_on_children generalizing parent above with
  | step node ih =>
    rw [within_eq] at h
    rcases List.mem_cons.mp h with rfl | h
    · exact List.suffix_refl _
    · obtain ⟨child, hchild, h⟩ := List.mem_flatMap.mp h
      exact (List.suffix_cons node (parent :: above)).trans (ih child hchild h)

/-- What is above a place leads from child to parent. -/
theorem isChain_of_mem_within {parent node : Node} {above : List Node} {place : Place}
    (habove : (node :: parent :: above).IsChain fun child parent =>
      child ∈ parent.children)
    (h : place ∈ within parent above node) :
    (place.node :: place.parent :: place.above).IsChain
      fun child parent => child ∈ parent.children := by
  induction node using Node.induction_on_children generalizing parent above with
  | step node ih =>
    rw [within_eq] at h
    rcases List.mem_cons.mp h with rfl | h
    · exact habove
    · obtain ⟨child, hchild, h⟩ := List.mem_flatMap.mp h
      exact ih child hchild (List.isChain_cons_cons.mpr ⟨hchild, habove⟩) h

/-- Places that list the nodes below a root in preorder, each with its parent and with the
nodes above that up to the root. -/
structure Lists (root : Node) (places : List Place) : Prop where
  preorder_eq : root.preorder = root :: places.map (·.node)
  above_root : ∀ place ∈ places, [root] <:+ place.parent :: place.above
  parents : ∀ place ∈ places, (place.node :: place.parent :: place.above).IsChain
    fun child parent => child ∈ parent.children

theorem lists_below (root : Node) : Lists root (below root) := by
  rw [below, withinAll_eq_flatMap]
  refine ⟨?_, ?_, ?_⟩
  · rw [Node.preorder_eq, List.map_flatMap]
    congr 1
    exact List.flatMap_congr fun node _ => (map_node_within root [] node).symm
  · intro place hplace
    obtain ⟨node, -, hplace⟩ := List.mem_flatMap.mp hplace
    exact suffix_of_mem_within hplace
  · intro place hplace
    obtain ⟨node, hnode, hplace⟩ := List.mem_flatMap.mp hplace
    exact isChain_of_mem_within (.cons_cons hnode (.singleton root)) hplace

end Place

/-! ## Reached places -/

namespace Redactor

/-- Whether a node is left without a payload by its redaction. -/
def empties (redactor : Redactor) (parent node : Node) : Bool :=
  match redactor.redact parent node with
  | .ok redacted => redacted.payload.isNone
  | .error _ => false

/-- Whether a node is to be masked and has no value. -/
def fails (redactor : Redactor) (parent node : Node) : Bool :=
  match redactor node parent with
  | some (.mask _) => node.value.isNone
  | _ => false

/-- Whether the redaction of the node at a place fails. -/
def failsAt (redactor : Redactor) (place : Place) : Bool :=
  redactor.fails place.parent place.node

/-- Every node between a place and the root is left without a payload. -/
def Reaches (redactor : Redactor) (place : Place) : Prop :=
  (place.parent :: place.above).IsChain fun node parent =>
    redactor.empties parent node = true

instance (redactor : Redactor) (place : Place) : Decidable (redactor.Reaches place) :=
  inferInstanceAs (Decidable (List.IsChain _ _))

/-- The places that the redactor reaches, in preorder. -/
def visits (redactor : Redactor) (root : Node) : List Place :=
  (Place.below root).filter (redactor.Reaches ·)

variable {redactor : Redactor} {parent node : Node}

theorem fails_iff :
    redactor.fails parent node = true ↔
      redactor.redact parent node = .error (.noValue node.kind) := by
  rw [redact_eq_error_iff, fails]
  cases redactor node parent with
  | none => simp
  | some redaction => cases redaction <;> simp

theorem reaches_child_iff {above : List Node} {child : Node} :
    redactor.Reaches ⟨child, node, parent :: above⟩ ↔
      redactor.empties parent node = true ∧ redactor.Reaches ⟨node, parent, above⟩ :=
  List.isChain_cons_cons

/-- Nothing below an unreached place is reached. -/
theorem filter_within_of_not_reaches {above : List Node}
    (h : ¬ redactor.Reaches ⟨node, parent, above⟩) :
    (Place.within parent above node).filter (redactor.Reaches ·) = [] := by
  rw [List.filter_eq_nil_iff]
  intro place hplace
  rw [decide_eq_true_eq]
  intro hreaches
  exact h (hreaches.suffix (Place.suffix_of_mem_within hplace))

end Redactor

/-! ## Questions and refusals -/

namespace Trail

variable {redactor : Redactor} {parent node : Node}

/-- Steps in which a question is followed by a refusal exactly if the redaction fails. -/
inductive Orderly (redactor : Redactor) : List Step → Prop
  | nil : Orderly redactor []
  | granted {parent node : Node} {rest : List Step}
      (h : redactor.fails parent node = false) (hrest : Orderly redactor rest) :
      Orderly redactor (.consult parent node :: rest)
  | refused {parent node : Node} {rest : List Step}
      (h : redactor.fails parent node = true) (hrest : Orderly redactor rest) :
      Orderly redactor (.consult parent node :: .refuse (.noValue node.kind) :: rest)
  | other {step : Step} {rest : List Step} (hc : consultation? step = none)
      (hr : refusal? step = none) (hrest : Orderly redactor rest) :
      Orderly redactor (step :: rest)

namespace Orderly

theorem append {steps more : List Step} (h : Orderly redactor steps)
    (hmore : Orderly redactor more) : Orderly redactor (steps ++ more) := by
  induction h with
  | nil => exact hmore
  | granted h _ ih => exact .granted h ih
  | refused h _ ih => exact .refused h ih
  | other hc hr _ ih => exact .other hc hr ih

theorem of_quiet {steps : List Step}
    (h : ∀ step ∈ steps, consultation? step = none ∧ refusal? step = none) :
    Orderly redactor steps := by
  induction steps with
  | nil => exact .nil
  | cons step rest ih =>
    obtain ⟨hc, hr⟩ := h step List.mem_cons_self
    exact .other hc hr (ih fun step hstep => h step (List.mem_cons_of_mem _ hstep))

theorem flatMap {nodes : List Node} {f : Node → List Step}
    (h : ∀ node ∈ nodes, Orderly redactor (f node)) :
    Orderly redactor (nodes.flatMap f) := by
  induction nodes with
  | nil => exact .nil
  | cons node rest ih =>
    rw [List.flatMap_cons]
    exact (h node List.mem_cons_self).append
      (ih fun node hnode => h node (List.mem_cons_of_mem _ hnode))

/-- The questions up to the first refusal are those up to the first one that fails. -/
theorem consultations_untilRefusal {steps : List Step} (h : Orderly redactor steps) :
    (untilRefusal steps).filterMap consultation? =
      (steps.filterMap consultation?).takeWhile
          (fun asked => !redactor.fails asked.1 asked.2) ++
        ((steps.filterMap consultation?).find? fun asked =>
          redactor.fails asked.1 asked.2).toList := by
  induction h with
  | nil => rfl
  | granted h _ ih => simp [untilRefusal, consultation?, h, ih]
  -- what comes behind the refusal has no part on either side
  | refused h _ _ => simp [untilRefusal, consultation?, h]
  | @other step rest hc hr _ ih =>
    cases step with
    | consult parent node => cases hc
    | refuse refusal => cases hr
    | _ => exact ih

/-- The first refusal is that of the first question that fails. -/
theorem findSome?_refusal? {steps : List Step} (h : Orderly redactor steps) :
    steps.findSome? refusal? =
      ((steps.filterMap consultation?).find? fun asked =>
          redactor.fails asked.1 asked.2).map
        fun asked => .noValue asked.2.kind := by
  induction h with
  | nil => rfl
  | granted h _ ih =>
    simp only [List.findSome?_cons, refusal?, List.filterMap_cons, consultation?,
      List.find?_cons, h, ih]
  | refused h _ _ =>
    simp only [List.findSome?_cons, refusal?, List.filterMap_cons, consultation?,
      List.find?_cons, h, Option.map_some]
  | other hc hr _ ih => simp only [List.findSome?_cons, hr, List.filterMap_cons, hc, ih]

end Orderly

theorem orderly_walk (redactor : Redactor) (parent node : Node) :
    Orderly redactor (walk redactor parent node) := by
  induction node using Node.induction_on_children generalizing parent with
  | step node ih =>
    cases hr : redactor.redact parent node with
    | error refusal =>
      obtain ⟨-, -, rfl⟩ := Redactor.redact_eq_error_iff.mp hr
      rw [walk_of_error hr]
      exact .refused (Redactor.fails_iff.mpr hr) .nil
    | ok redacted =>
      have hgranted : redactor.fails parent node = false := by
        rw [← Bool.not_eq_true, Redactor.fails_iff, hr]
        exact nofun
      cases hp : redacted.payload with
      | some payload =>
        rw [walk_of_payload hr hp]
        exact .granted hgranted (.of_quiet fun step hstep =>
          ⟨consultation?_of_mem_extract hstep, refusal?_of_mem_extract hstep⟩)
      | none =>
        rw [walk_of_no_payload hr hp, walkAll_eq_flatMap]
        exact .granted hgranted (.flatMap fun child hchild => ih child hchild node)

theorem orderly_walkAll (redactor : Redactor) (parent : Node) (nodes : List Node) :
    Orderly redactor (walkAll redactor parent nodes) := by
  rw [walkAll_eq_flatMap]
  exact .flatMap fun node _ => orderly_walk redactor parent node

/-- A node that is left without a payload is asked about before its children are. -/
theorem consultations_walk_of_empties (h : redactor.empties parent node = true) :
    (walk redactor parent node).filterMap consultation? =
      (parent, node) :: node.children.flatMap fun child =>
        (walk redactor node child).filterMap consultation? := by
  cases hr : redactor.redact parent node with
  | error refusal => simp [Redactor.empties, hr] at h
  | ok redacted =>
    simp only [Redactor.empties, hr, Option.isNone_iff_eq_none] at h
    rw [walk_of_no_payload hr h, walkAll_eq_flatMap, ← List.filterMap_flatMap]
    rfl

/-- Any other node is the only one that is asked about. -/
theorem consultations_walk_of_not_empties (h : ¬ redactor.empties parent node = true) :
    (walk redactor parent node).filterMap consultation? = [(parent, node)] := by
  cases hr : redactor.redact parent node with
  | error refusal =>
    rw [walk_of_error hr]
    rfl
  | ok redacted =>
    cases hp : redacted.payload with
    | none => simp [Redactor.empties, hr, hp] at h
    | some payload =>
      have hquiet : (extract parent node payload).filterMap consultation? = [] := by
        rw [List.filterMap_eq_nil_iff]
        exact fun step hstep => consultation?_of_mem_extract hstep
      rw [walk_of_payload hr hp, List.filterMap_cons, hquiet]
      rfl

/-- The whole walk from a reached place asks about the reached places within it. -/
theorem consultations_walk {above : List Node}
    (h : redactor.Reaches ⟨node, parent, above⟩) :
    (walk redactor parent node).filterMap consultation? =
      ((Place.within parent above node).filter (redactor.Reaches ·)).map
        fun place => (place.parent, place.node) := by
  induction node using Node.induction_on_children generalizing parent above with
  | step node ih =>
    rw [Place.within_eq, List.filter_cons, if_pos (decide_eq_true h), List.map_cons,
      List.filter_flatMap]
    by_cases hempties : redactor.empties parent node = true
    · -- the children are reached as well
      rw [consultations_walk_of_empties hempties, List.map_flatMap]
      congr 1
      exact List.flatMap_congr fun child hchild =>
        ih child hchild (Redactor.reaches_child_iff.mpr ⟨hempties, h⟩)
    · -- nothing below is reached
      have hnone : node.children.flatMap (fun child =>
          (Place.within node (parent :: above) child).filter
            (redactor.Reaches ·)) = [] := by
        rw [List.flatMap_eq_nil_iff]
        intro child _
        exact Redactor.filter_within_of_not_reaches fun hreaches =>
          hempties (Redactor.reaches_child_iff.mp hreaches).1
      rw [consultations_walk_of_not_empties hempties, hnone]
      rfl

theorem consultations_walkAll (redactor : Redactor) (root : Node) :
    (walkAll redactor root root.children).filterMap consultation? =
      (redactor.visits root).map fun place => (place.parent, place.node) := by
  rw [Redactor.visits, Place.below, Place.withinAll_eq_flatMap, List.filter_flatMap,
    List.map_flatMap, walkAll_eq_flatMap, List.filterMap_flatMap]
  exact List.flatMap_congr fun node _ => consultations_walk (.singleton root)

end Trail

/-! ## Calls and failure -/

/-- The redactor is asked exactly once about each place that it reaches, in preorder, and
the last question is the first one that fails. If there is one, flattening fails with it,
and so does the building of a projection. -/
theorem Flattening.consultations_of_redaction (redactor : Redactor) (root : Node) :
    Place.Lists root (Place.below root) ∧
      (Trail.ofRoot redactor root).filterMap Trail.consultation? =
        ((redactor.visits root).takeWhile (!redactor.failsAt ·) ++
          ((redactor.visits root).find? redactor.failsAt).toList).map
          (fun place => (place.parent, place.node)) ∧
      (∀ refusal, ofRedacted redactor root = .error refusal ↔
        ∃ place, (redactor.visits root).find? redactor.failsAt = some place ∧
          refusal = .noValue place.node.kind) ∧
      ((∃ refusal, ofRedacted redactor root = .error refusal) ↔
        ∃ place ∈ redactor.visits root, redactor.failsAt place = true) ∧
      ∀ source refusal, Projection.build root { source, redactor := some redactor } =
          .error refusal ↔ ofRedacted redactor root = .error refusal := by
  have horderly := Trail.orderly_walkAll redactor root root.children
  have herror (refusal : Refusal) : ofRedacted redactor root = .error refusal ↔
      ∃ place, (redactor.visits root).find? redactor.failsAt = some place ∧
        refusal = .noValue place.node.kind := by
    rw [ofRedacted_eq_error_iff, horderly.findSome?_refusal?, Trail.consultations_walkAll,
      List.find?_map, Option.map_map, Option.map_eq_some_iff]
    simp only [Function.comp_apply, eq_comm]
    rfl
  refine ⟨Place.lists_below root, ?_, herror, ?_, ?_⟩
  · rw [Trail.ofRoot, horderly.consultations_untilRefusal, Trail.consultations_walkAll,
      List.takeWhile_map, List.find?_map, List.map_append, Option.toList_map]
    rfl
  · simp only [herror]
    constructor
    · rintro ⟨_, place, hplace, -⟩
      exact ⟨place, List.mem_of_find?_eq_some hplace, List.find?_some hplace⟩
    · rintro ⟨place, hmem, hfails⟩
      have hsome : ((redactor.visits root).find? redactor.failsAt).isSome := by
        rw [List.find?_isSome]
        exact ⟨place, hmem, hfails⟩
      obtain ⟨first, hfirst⟩ := Option.isSome_iff_exists.mp hsome
      exact ⟨_, first, hfirst, rfl⟩
  · intro source refusal
    rw [Projection.build_eq]
    show (ofRedacted redactor root).map _ = _ ↔ _
    cases ofRedacted redactor root <;> simp [Except.map]

end ProseMap
