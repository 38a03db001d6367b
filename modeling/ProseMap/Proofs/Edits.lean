import Mathlib.Data.List.Forall2
import ProseMap.Proofs.Tiling

/-!
# Redaction as an edit

A redactor acts during the walk, node by node. It could as well have edited the tree
before: clearing is an edit of the tree, and a mask changes nothing but the characters of
the text that is emitted. `forall₂_walk` is the simulation between the two walks. -/

namespace ProseMap

/-! ## Origins -/

/-- An excerpt with the node whose payload it is, and that node's parent. -/
structure Origin where
  parent : Node
  node : Node
  excerpt : Excerpt

namespace Trail

/-- The excerpts of a trail, each with the node about which the redactor was asked
last. -/
def origins : Option (Node × Node) → List Step → List Origin
  | _, [] => []
  | _, .consult parent node :: rest => origins (some (parent, node)) rest
  | some (parent, node), .emit excerpt :: rest =>
    ⟨parent, node, excerpt⟩ :: origins (some (parent, node)) rest
  | asked, _ :: rest => origins asked rest

/-- Steps that begin with a question have origins of their own. -/
theorem origins_append {rest : List Step}
    (h : ∀ asked, origins asked rest = origins none rest) (asked : Option (Node × Node))
    (steps : List Step) :
    origins asked (steps ++ rest) = origins asked steps ++ origins none rest := by
  induction steps generalizing asked with
  | nil => exact h asked
  | cons step steps ih =>
    rw [List.cons_append]
    cases step with
    | emit excerpt =>
      cases asked with
      | none => exact ih none -- nothing was asked yet, so the excerpt has no origin
      | some pair =>
        simp only [origins, ih, List.cons_append]
    | _ => simp only [origins, ih]

/-- Without another question everything comes from the same node. -/
theorem origins_of_no_consultation {steps : List Step}
    (h : ∀ step ∈ steps, consultation? step = none) (parent node : Node) :
    origins (some (parent, node)) steps =
      (steps.filterMap excerpt?).map (⟨parent, node, ·⟩) := by
  induction steps with
  | nil => rfl
  | cons step steps ih =>
    have hsteps := ih fun step hstep => h step (List.mem_cons_of_mem _ hstep)
    cases step with
    | consult above below => cases h _ List.mem_cons_self
    | emit excerpt => simp only [origins, hsteps]; rfl
    | _ => exact hsteps

variable {redactor : Redactor} {parent node redacted : Node}

theorem exists_walk_eq_cons (redactor : Redactor) (parent node : Node) :
    ∃ rest, walk redactor parent node = .consult parent node :: rest := by
  cases node
  rw [walk]
  exact ⟨_, rfl⟩

theorem origins_walkAll (redactor : Redactor) (parent : Node) (nodes : List Node)
    (asked : Option (Node × Node)) :
    origins asked (walkAll redactor parent nodes) =
      nodes.flatMap fun node => origins none (walk redactor parent node) := by
  induction nodes generalizing asked with
  | nil => rfl
  | cons node rest ih =>
    obtain ⟨steps, hsteps⟩ := exists_walk_eq_cons redactor parent node
    rw [walkAll, origins_append (fun asked => by rw [ih, ih]), ih, List.flatMap_cons,
      hsteps]
    rfl

theorem origins_walk_of_payload {payload : Payload}
    (h : redactor.redact parent node = .ok redacted)
    (hp : redacted.payload = some payload) :
    origins none (walk redactor parent node) =
      ((extract parent node payload).filterMap excerpt?).map (⟨parent, node, ·⟩) := by
  rw [walk_of_payload h hp, origins,
    origins_of_no_consultation fun step hstep => consultation?_of_mem_extract hstep]

theorem origins_walk_of_no_payload (h : redactor.redact parent node = .ok redacted)
    (hp : redacted.payload = none) :
    origins none (walk redactor parent node) =
      node.children.flatMap fun child => origins none (walk redactor node child) := by
  rw [walk_of_no_payload h hp, origins, origins_walkAll]

end Trail

/-! ## The edit -/

namespace Redactor

/-- The value of a node, empty if the redactor clears it. -/
def clearedValue (redactor : Redactor) (parent node : Node) : Option String :=
  if redactor node parent = some .clear then node.value.map fun _ => "" else node.value

mutual

/-- A tree below `parent` in which every value that the redactor clears is empty. The
redactor sees the nodes as they were. -/
def clear (redactor : Redactor) (parent : Node) : Node → Node
  | ⟨kind, value, alt, title, children, range, raw⟩ =>
    { kind, alt, title, range, raw
      value :=
        redactor.clearedValue parent ⟨kind, value, alt, title, children, range, raw⟩
      children :=
        clearAll redactor ⟨kind, value, alt, title, children, range, raw⟩ children }

def clearAll (redactor : Redactor) (parent : Node) : List Node → List Node
  | [] => []
  | node :: rest => clear redactor parent node :: clearAll redactor parent rest

end

/-- The tree of a root, below which every value that the redactor clears is empty. -/
def edit (redactor : Redactor) (root : Node) : Node :=
  { root with children := clearAll redactor root root.children }

/-- The text that is emitted for a node in the place of `text`: a value that is masked
shows the symbol once for each of its characters. -/
def shown (redactor : Redactor) (parent node : Node) (text : String) : String :=
  match redactor node parent, node.value with
  | some (.mask symbol), some value =>
    if value = "" then text else Redaction.masked symbol value
  | _, _ => text

theorem shown_of_unmasked {redactor : Redactor} {parent node : Node}
    (h : ∀ symbol value, redactor node parent = some (.mask symbol) →
      node.value = some value → value = "") (text : String) :
    redactor.shown parent node text = text := by
  rw [shown]
  split
  · rename_i symbol value hmask hvalue
    exact if_pos (h symbol value hmask hvalue)
  · rfl

theorem shown_of_masked {redactor : Redactor} {parent node : Node} {symbol : Char}
    {value : String} (hmask : redactor node parent = some (.mask symbol))
    (hvalue : node.value = some value) (hne : value ≠ "") (text : String) :
    redactor.shown parent node text = Redaction.masked symbol value := by
  simp [shown, hmask, hvalue, hne]

theorem clearAll_eq_map (redactor : Redactor) (parent : Node) (nodes : List Node) :
    clearAll redactor parent nodes = nodes.map (clear redactor parent) := by
  induction nodes with
  | nil => rfl
  | cons node rest ih => rw [clearAll, ih, List.map_cons]

theorem clear_eq (redactor : Redactor) (parent node : Node) :
    clear redactor parent node =
      { node with
        value := redactor.clearedValue parent node
        children := node.children.map (clear redactor node) } := by
  cases node
  rw [clear, clearAll_eq_map]

theorem edit_eq (redactor : Redactor) (root : Node) :
    redactor.edit root =
      { root with children := root.children.map (clear redactor root) } := by
  rw [edit, clearAll_eq_map]

theorem clear_eq_self {redactor : Redactor} {root parent node : Node}
    (h : ∀ above ∈ root.preorder, ∀ child ∈ above.children,
      redactor child above ≠ some .clear)
    (hparent : parent ∈ root.preorder) (hnode : node ∈ parent.children) :
    clear redactor parent node = node := by
  induction node using Node.induction_on_children generalizing parent with
  | step node ih =>
    have hchildren : node.children.map (clear redactor node) = node.children :=
      (List.map_congr_left fun child hchild =>
        ih child hchild (Node.child_mem_preorder hnode hparent) hchild).trans
          (List.map_id' _)
    rw [clear_eq, hchildren, clearedValue, if_neg (h parent hparent node hnode)]
    cases node
    rfl

/-- Where nothing is cleared, the tree is not edited. -/
theorem edit_eq_self {redactor : Redactor} {root : Node}
    (h : ∀ above ∈ root.preorder, ∀ child ∈ above.children,
      redactor child above ≠ some .clear) :
    redactor.edit root = root := by
  have hchildren : root.children.map (clear redactor root) = root.children :=
    (List.map_congr_left fun node hnode =>
      clear_eq_self h (Node.self_mem_preorder root) hnode).trans (List.map_id' _)
  rw [edit_eq, hchildren]
  cases root
  rfl

end Redactor

/-! ## One node -/

/-- Nodes that a search for a payload cannot tell apart. -/
structure Node.Alike (a b : Node) : Prop where
  kind : a.kind = b.kind
  range : a.range = b.range
  raw : a.raw = b.raw

theorem Node.payload_congr {a b : Node} (hvalue : a.value = b.value)
    (halt : a.alt = b.alt) (htitle : a.title = b.title)
    (hchildren : a.hasChildren = b.hasChildren) :
    a.payload = b.payload := by
  rw [Node.payload, Node.payload, hvalue, halt, htitle, hchildren]

theorem Excerpt.locate_congr {a b : Node} (h : a.Alike b) (needle : String) :
    locate a needle = locate b needle := by
  simp only [locate, h.kind, h.range, h.raw]

/-- Where a payload is looked for, depends on the kinds of the two nodes only. -/
theorem Excerpt.alike_container {parent parent' node node' : Node}
    (hparent : parent'.Alike parent) (hnode : node'.Alike node) :
    (container parent' node').Alike (container parent node) := by
  rw [container, container, hparent.kind]
  split
  · exact hnode
  · exact hparent

namespace Redactor

variable {redactor : Redactor} {parent node redacted : Node}

theorem alike_clear (redactor : Redactor) (parent node : Node) :
    (clear redactor parent node).Alike node := by
  rw [clear_eq]
  exact ⟨rfl, rfl, rfl⟩

/-- A redactor that does not clear a node leaves its payload in the edited tree. -/
theorem payload_clear_of_ne (h : redactor node parent ≠ some .clear) :
    (clear redactor parent node).payload = node.payload := by
  rw [clear_eq]
  refine Node.payload_congr ?_ rfl rfl ?_
  · exact if_neg h
  · simp [Node.hasChildren]

theorem payload_clear_of_eq (h : redactor node parent = some .clear) :
    (clear redactor parent node).payload =
      { node with value := node.value.map fun _ => "" }.payload := by
  rw [clear_eq]
  refine Node.payload_congr ?_ rfl rfl ?_
  · exact if_pos h
  · simp [Node.hasChildren]

/-- The payload of a cleared node is not its value, and is looked for as it is. -/
theorem needle_of_cleared {payload : Payload}
    (hp : { node with value := node.value.map fun _ => "" }.payload = some payload) :
    Excerpt.needle node payload = payload.text := by
  obtain ⟨htext, hne⟩ := Node.text?_of_payload hp
  rw [Excerpt.needle]
  split
  · rename_i source hsource
    split
    · rename_i hfield
      -- the field stands in the node as it was, unless it is the cleared value
      obtain ⟨hsource, -⟩ := Node.text?_of_payload hsource
      rw [hfield] at hsource
      cases hf : payload.field with
      | value =>
        rw [hf] at htext
        obtain ⟨_, -, hempty⟩ := Option.map_eq_some_iff.mp htext
        exact absurd hempty.symm hne
      | alt =>
        rw [hf] at htext hsource
        exact Option.some.inj (hsource.symm.trans htext)
      | title =>
        rw [hf] at htext hsource
        exact Option.some.inj (hsource.symm.trans htext)
    · rfl
  · rfl

/-- What a redacted payload has to do with the one in the edited tree: it is shown for
that one, which is the value if that is masked, and looked for by its text. -/
structure ShowsPayload (redactor : Redactor) (parent node : Node)
    (payload source : Payload) : Prop where
  needle_eq : Excerpt.needle node payload = source.text
  text_eq : payload.text = redactor.shown parent node source.text
  length_eq : payload.text.length = source.text.length
  value_eq : ∀ symbol value, redactor node parent = some (.mask symbol) →
    node.value = some value → value ≠ "" → source.text = value

/-- A payload that is not redacted is shown for itself. -/
theorem ShowsPayload.of_unmasked {payload : Payload}
    (hneedle : Excerpt.needle node payload = payload.text)
    (h : ∀ symbol value, redactor node parent = some (.mask symbol) →
      node.value = some value → value = "") :
    ShowsPayload redactor parent node payload payload := by
  refine ⟨hneedle, (shown_of_unmasked h _).symm, rfl, ?_⟩
  intro symbol value hmask hvalue hne
  exact absurd (h symbol value hmask hvalue) hne

/-- A redacted node has a payload exactly if its edited form has one, and shows that. -/
theorem payload_of_redact (h : redactor.redact parent node = .ok redacted) :
    (redacted.payload = none ∧ (clear redactor parent node).payload = none) ∨
      ∃ payload source, redacted.payload = some payload ∧
        (clear redactor parent node).payload = some source ∧
        ShowsPayload redactor parent node payload source := by
  -- a payload that the redactor leaves alone
  have of_unchanged (hne : redactor node parent ≠ some .clear)
      (hunmasked : ∀ symbol value, redactor node parent = some (.mask symbol) →
        node.value = some value → value = "") :
      (node.payload = none ∧ (clear redactor parent node).payload = none) ∨
        ∃ payload source, node.payload = some payload ∧
          (clear redactor parent node).payload = some source ∧
          ShowsPayload redactor parent node payload source := by
    rw [payload_clear_of_ne hne]
    cases hp : node.payload with
    | none => exact .inl ⟨rfl, rfl⟩
    | some payload =>
      exact .inr ⟨payload, payload, rfl, rfl,
        .of_unmasked (Excerpt.needle_of_payload hp) hunmasked⟩
  rcases redact_eq_ok_iff.mp h with ⟨hnone, rfl⟩ | ⟨symbol, value, hmask, hvalue, rfl⟩ |
    ⟨hclear, rfl⟩
  · exact of_unchanged (by simp [hnone]) (by simp [hnone])
  · by_cases hempty : value = ""
    · -- a mask of nothing leaves nothing
      subst hempty
      have hnode : { node with value := some (Redaction.masked symbol "") } = node := by
        cases node
        cases hvalue
        rfl
      rw [hnode]
      exact of_unchanged (by simp [hmask]) (by simp [hvalue])
    · have hsource := Node.payload_of_value hvalue hempty
      have hmasked : Redaction.masked symbol value ≠ "" := by
        rwa [ne_eq, ← String.length_eq_zero_iff, Redaction.length_masked,
          String.length_eq_zero_iff]
      refine .inr
        ⟨_, ⟨.value, value⟩, Node.payload_of_value rfl hmasked, ?_, ?_, ?_, ?_, ?_⟩
      · rw [payload_clear_of_ne (by simp [hmask]), hsource]
      · simp [Excerpt.needle, hsource]
      · exact (shown_of_masked hmask hvalue hempty _).symm
      · exact Redaction.length_masked symbol value
      · intro _ value' _ hvalue' _
        exact Option.some.inj (hvalue.symm.trans hvalue')
  · rw [payload_clear_of_eq hclear]
    cases hp : { node with value := node.value.map fun _ => "" }.payload with
    | none => exact .inl ⟨rfl, rfl⟩
    | some payload =>
      exact .inr ⟨payload, payload, rfl, rfl,
        .of_unmasked (needle_of_cleared hp) (by simp [hclear])⟩

end Redactor

/-! ## Simulation -/

namespace Trail

variable {redactor : Redactor} {parent parent' node : Node}

/-- An excerpt stands where one of the edited tree stands, and shows its text. -/
structure Shows (redactor : Redactor) (origin : Origin) (excerpt : Excerpt) : Prop where
  markup_eq : origin.excerpt.markup = excerpt.markup
  content_eq : origin.excerpt.content = excerpt.content
  text_eq : origin.excerpt.text = redactor.shown origin.parent origin.node excerpt.text
  length_eq : origin.excerpt.text.length = excerpt.text.length
  value_eq : ∀ symbol value, redactor origin.node origin.parent = some (.mask symbol) →
    origin.node.value = some value → value ≠ "" → excerpt.text = value

/-- A leaf yields an excerpt exactly if its edited form does, at the same place. -/
theorem forall₂_extract {payload source : Payload} {node' : Node}
    (hparent : parent'.Alike parent) (hnode : node'.Alike node)
    (hp : node'.payload = some source)
    (h : redactor.ShowsPayload parent node payload source) :
    List.Forall₂ (Shows redactor)
      (((extract parent node payload).filterMap excerpt?).map (⟨parent, node, ·⟩))
      ((extract parent' node' source).filterMap excerpt?) := by
  by_cases hd : parent.kind = .paragraph ∧ node.kind = .str
  · rw [filterMap_extract_of_direct hd.1 hd.2,
      filterMap_extract_of_direct (hparent.kind.trans hd.1) (hnode.kind.trans hd.2),
      hnode.range]
    exact .cons ⟨rfl, rfl, h.text_eq, h.length_eq, h.value_eq⟩ .nil
  · have hd' : ¬ (parent'.kind = .paragraph ∧ node'.kind = .str) := by
      rwa [hparent.kind, hnode.kind]
    have hcontainer := Excerpt.alike_container hparent hnode
    rw [filterMap_extract_of_padded hd, filterMap_extract_of_padded hd',
      Excerpt.locate_congr hcontainer, Excerpt.needle_of_payload hp, h.needle_eq,
      hcontainer.range]
    cases Excerpt.locate (Excerpt.container parent node) source.text with
    | error reason => exact .nil
    | ok content => exact .cons ⟨rfl, rfl, h.text_eq, h.length_eq, h.value_eq⟩ .nil

/-- Lists made from the same elements are aligned if what each element makes is. -/
theorem forall₂_flatMap {α β γ : Type} {R : β → γ → Prop} {f : α → List β}
    {g : α → List γ} {xs : List α} (h : ∀ x ∈ xs, List.Forall₂ R (f x) (g x)) :
    List.Forall₂ R (xs.flatMap f) (xs.flatMap g) :=
  List.rel_flatMap (R := fun x y => List.Forall₂ R (f x) (g y)) (List.forall₂_same.mpr h)
    fun _ _ hxy => hxy

/-- A walk under a redactor that refuses nothing emits what a walk through the edited tree
does. -/
theorem forall₂_walk (hparent : parent'.Alike parent)
    (h : ∀ step ∈ walk redactor parent node, refusal? step = none) :
    List.Forall₂ (Shows redactor) (origins none (walk redactor parent node))
      (runs .keep parent' (redactor.clear parent node)) := by
  -- the parents need not be equal: the walk through the edited tree passes edited ones on
  induction node using Node.induction_on_children generalizing parent parent' with
  | step node ih =>
    have halike := Redactor.alike_clear redactor parent node
    obtain ⟨redacted, hr, hchildren⟩ := redact_of_walk h
    rcases Redactor.payload_of_redact hr with
      ⟨hnone, hnone'⟩ | ⟨payload, source, hp, hp', hshows⟩
    · -- both walks go on to the children
      rw [origins_walk_of_no_payload hr hnone, runs_of_no_payload rfl hnone',
        excerpts_eq_flatMap]
      rw [Redactor.clear_eq] at halike ⊢
      rw [List.flatMap_map]
      exact forall₂_flatMap fun child hchild =>
        ih child hchild halike (hchildren hnone child hchild)
    · rw [origins_walk_of_payload hr hp, runs_of_payload rfl hp']
      exact forall₂_extract hparent halike hp' hshows

/-- So does the walk from a root. -/
theorem forall₂_walkAll {root : Node}
    (h : ∀ step ∈ walkAll redactor root root.children, refusal? step = none) :
    List.Forall₂ (Shows redactor) (origins none (walkAll redactor root root.children))
      (excerpts .keep (redactor.edit root) (redactor.edit root).children) := by
  rw [origins_walkAll, excerpts_eq_flatMap, Redactor.edit_eq, List.flatMap_map]
  exact forall₂_flatMap fun node hnode =>
    forall₂_walk ⟨rfl, rfl, rfl⟩ (walk_of_walkAll h hnode)

/-- Every excerpt of a walk has its origin. -/
theorem map_origins_walk (redactor : Redactor) (parent node : Node) :
    (origins none (walk redactor parent node)).map (·.excerpt) =
      runs redactor parent node := by
  induction node using Node.induction_on_children generalizing parent with
  | step node ih =>
    cases hr : redactor.redact parent node with
    | error refusal =>
      rw [walk_of_error hr, runs_of_error hr]
      rfl
    | ok redacted =>
      cases hp : redacted.payload with
      | some payload =>
        rw [origins_walk_of_payload hr hp, runs_of_payload hr hp, List.map_map]
        exact List.map_id _
      | none =>
        rw [origins_walk_of_no_payload hr hp, runs_of_no_payload hr hp,
          excerpts_eq_flatMap, List.map_flatMap]
        exact List.flatMap_congr fun child hchild => ih child hchild node

theorem map_origins_walkAll (redactor : Redactor) (parent : Node) (nodes : List Node) :
    (origins none (walkAll redactor parent nodes)).map (·.excerpt) =
      excerpts redactor parent nodes := by
  rw [origins_walkAll, excerpts_eq_flatMap, List.map_flatMap]
  exact List.flatMap_congr fun node _ => map_origins_walk redactor parent node

end Trail

/-! ## Segments -/

namespace Flattening

variable {redactor : Redactor} {root : Node} {flattening : Flattening}

/-- A segment of a redacted tree stands where one of the edited tree stands, and shows its
text. -/
structure Shows (redactor : Redactor) (origin : Origin) (segment source : Segment) :
    Prop where
  markup_eq : segment.markup = source.markup
  content_eq : segment.content = source.content
  text_eq : segment.text = redactor.shown origin.parent origin.node source.text
  length_eq : segment.text.length = source.text.length
  value_eq : ∀ symbol value, redactor origin.node origin.parent = some (.mask symbol) →
    origin.node.value = some value → value ≠ "" → source.text = value

theorem length_toList (redactor : Redactor) (root : Node) :
    ((Trail.excerpts redactor root root.children).foldl emit empty).map.toList.length =
      (Trail.excerpts redactor root root.children).length := by
  have hlength := congrArg List.length (contents_eq redactor root)
  rwa [List.length_map, List.length_map] at hlength

theorem contents_getElem? {i : Nat} {segment : Segment} {excerpt : Excerpt}
    (hs : ((Trail.excerpts redactor root root.children).foldl emit empty).map.toList[i]? =
      some segment)
    (he : (Trail.excerpts redactor root root.children)[i]? = some excerpt) :
    segment.markup = excerpt.markup ∧ segment.content = excerpt.content ∧
      segment.text = excerpt.text := by
  have hget := congrArg (·[i]?) (contents_eq redactor root)
  simpa only [List.getElem?_map, hs, he, Option.map_some, Option.some.injEq,
    Prod.mk.injEq] using hget

/-- The trail of a tree whose redactions all succeed is the whole walk. -/
theorem trail_of_ok (h : ofRedacted redactor root = .ok flattening) :
    Trail.ofRoot redactor root = Trail.walkAll redactor root root.children :=
  Trail.untilRefusal_eq_self (ofRedacted_eq_ok_iff.mp h).1

/-- A redacted tree has as many segments as its trail has origins, and as the edited tree
has segments. -/
theorem size_eq_of_ok (h : ofRedacted redactor root = .ok flattening) :
    flattening.map.toList.length =
      (Trail.origins none (Trail.ofRoot redactor root)).length ∧
      (ofRoot (redactor.edit root)).map.toList.length =
        (Trail.origins none (Trail.ofRoot redactor root)).length := by
  obtain ⟨hok, rfl⟩ := ofRedacted_eq_ok_iff.mp h
  rw [trail_of_ok h, ofRoot_eq, length_toList, length_toList, ← Trail.map_origins_walkAll,
    List.length_map]
  exact ⟨rfl, (Trail.forall₂_walkAll hok).length_eq.symm⟩

/-- The segments of a redacted tree and of the edited tree correspond to each other in
order. -/
theorem shows_getElem? (h : ofRedacted redactor root = .ok flattening) {i : Nat}
    {segment source : Segment} {origin : Origin}
    (hs : flattening.map.toList[i]? = some segment)
    (ht : (ofRoot (redactor.edit root)).map.toList[i]? = some source)
    (ho : (Trail.origins none (Trail.ofRoot redactor root))[i]? = some origin) :
    Shows redactor origin segment source := by
  obtain ⟨hok, rfl⟩ := ofRedacted_eq_ok_iff.mp h
  rw [trail_of_ok h] at ho
  rw [ofRoot_eq] at ht
  have he : (Trail.excerpts redactor root root.children)[i]? = some origin.excerpt := by
    rw [← Trail.map_origins_walkAll, List.getElem?_map, ho]
    rfl
  have hforall := Trail.forall₂_walkAll hok
  obtain ⟨hi, rfl⟩ := List.getElem?_eq_some_iff.mp ho
  have hshows := hforall.get hi (hforall.length_eq ▸ hi)
  have he' := List.getElem?_eq_getElem (hforall.length_eq ▸ hi)
  obtain ⟨hmarkup, hcontent, htext⟩ := contents_getElem? hs he
  obtain ⟨hmarkup', hcontent', htext'⟩ := contents_getElem? ht he'
  refine ⟨?_, ?_, ?_, ?_, ?_⟩
  · rw [hmarkup, hmarkup']
    exact hshows.markup_eq
  · rw [hcontent, hcontent']
    exact hshows.content_eq
  · rw [htext, htext']
    exact hshows.text_eq
  · rw [htext, htext']
    exact hshows.length_eq
  · rw [htext']
    exact hshows.value_eq

/-- A segment of a redacted tree shows one of the edited tree. -/
theorem exists_shows_of_mem (h : ofRedacted redactor root = .ok flattening)
    {segment : Segment} (hs : segment ∈ flattening.map.toList) :
    ∃ origin ∈ Trail.origins none (Trail.ofRoot redactor root),
      ∃ source ∈ (ofRoot (redactor.edit root)).map.toList,
        Shows redactor origin segment source := by
  obtain ⟨hsize, hsize'⟩ := size_eq_of_ok h
  obtain ⟨i, hi, hget⟩ := List.mem_iff_getElem.mp hs
  refine ⟨_, List.getElem_mem (hsize ▸ hi), _,
    List.getElem_mem (hsize'.trans hsize.symm ▸ hi), ?_⟩
  exact shows_getElem? h (List.getElem?_eq_some_iff.mpr ⟨hi, hget⟩)
    (List.getElem?_eq_getElem _) (List.getElem?_eq_getElem _)

/-- Every origin of a redacted tree has its segment. -/
theorem exists_shows_of_origin (h : ofRedacted redactor root = .ok flattening)
    {origin : Origin} (ho : origin ∈ Trail.origins none (Trail.ofRoot redactor root)) :
    ∃ segment ∈ flattening.map.toList,
      ∃ source ∈ (ofRoot (redactor.edit root)).map.toList,
        Shows redactor origin segment source := by
  obtain ⟨hsize, hsize'⟩ := size_eq_of_ok h
  obtain ⟨i, hi, hget⟩ := List.mem_iff_getElem.mp ho
  refine ⟨_, List.getElem_mem (hsize.symm ▸ hi), _,
    List.getElem_mem (hsize'.symm ▸ hi), ?_⟩
  exact shows_getElem? h (List.getElem?_eq_getElem _) (List.getElem?_eq_getElem _)
    (List.getElem?_eq_some_iff.mpr ⟨hi, hget⟩)

/-- A redacted tree is flattened as the edited tree is, with masks in the place of values.
With nothing to redact it is flattened as it is. -/
theorem ofRedacted_shows_edit (redactor : Redactor) (root : Node) :
    (∀ flattening, ofRedacted redactor root = .ok flattening →
      flattening.map.size = (ofRoot (redactor.edit root)).map.size ∧
      flattening.map.size = (Trail.origins none (Trail.ofRoot redactor root)).length ∧
      ∀ (i : Nat) segment source origin, flattening.map.toList[i]? = some segment →
        (ofRoot (redactor.edit root)).map.toList[i]? = some source →
        (Trail.origins none (Trail.ofRoot redactor root))[i]? = some origin →
        Shows redactor origin segment source) ∧
    ((∀ node parent, redactor node parent = none) →
      ofRedacted redactor root = .ok (ofRoot root)) := by
  refine ⟨?_, ?_⟩
  · intro flattening h
    obtain ⟨hsize, hsize'⟩ := size_eq_of_ok h
    refine ⟨hsize.trans hsize'.symm, hsize, ?_⟩
    intro i segment source origin
    exact shows_getElem? h
  · intro h
    have hkeep : redactor = .keep := by
      funext node parent
      exact h node parent
    rw [hkeep]
    exact ofRedacted_keep root

/-- A code span, and an image that has a value besides its caption. -/
def captioned : Node :=
  { Node.spanning .paragraph "`ab`![x](y)" ⟨0, 11⟩ with
    children :=
      [{ Node.spanning .code "`ab`![x](y)" ⟨0, 4⟩ with value := some "ab" },
       { Node.spanning .image "`ab`![x](y)" ⟨4, 11⟩ with
        value := some "y", alt := some "x" }] }

/-- Masks code and clears the values of images. -/
def hideCode : Redactor := fun node _ =>
  match node.kind with
  | .code => some (.mask '*')
  | .image => some .clear
  | _ => none

/-- The image falls back to its caption in both trees, and the code span is masked in
one. -/
theorem ofRedacted_shows_edit_captioned :
    ∃ flattening origin, ofRedacted hideCode captioned = .ok flattening ∧
      flattening.text = "**x" ∧ (ofRoot (hideCode.edit captioned)).text = "abx" ∧
      (Trail.origins none (Trail.ofRoot hideCode captioned))[0]? = some origin ∧
      origin.node.kind = .code ∧
      Shows hideCode origin
        ⟨⟨0, 4⟩, ⟨1, 3⟩, ⟨0, 2⟩, "**"⟩ ⟨⟨0, 4⟩, ⟨1, 3⟩, ⟨0, 2⟩, "ab"⟩ :=
  ⟨_, _, rfl, by decide, by decide, rfl, rfl,
    ((ofRedacted_shows_edit hideCode captioned).1 _ rfl).2.2 0 _ _ _ rfl rfl rfl⟩

end Flattening

end ProseMap
