import ProseMap.Proofs.Edits
import ProseMap.Proofs.Fidelity

/-!
# Parts

A flattening does not depend on what was emitted before it: behind other text its segments
only move by the length of that text. So the flattening of a tree is put together from
those of its parts, in their order (`compose`). -/

namespace ProseMap

/-! ## One flattening behind another -/

/-- The segment behind `distance` more bytes of generated text. -/
def Segment.behind (distance : Nat) (segment : Segment) : Segment :=
  { segment with generated := segment.generated.shift distance }

theorem Segment.behind_behind (m n : Nat) (segment : Segment) :
    (segment.behind m).behind n = segment.behind (n + m) := by
  simp [behind, Span.shift, Nat.add_comm, Nat.add_left_comm]

namespace Flattening

/-- A flattening followed by another one: the texts in a row, and the segments of the
second one moved by the length of the first one's text. -/
def merge (flattening more : Flattening) : Flattening where
  text := flattening.text ++ more.text
  map := ⟨flattening.map.segments ++
    more.map.segments.map (Segment.behind flattening.text.utf8ByteSize)⟩

theorem toList_merge (flattening more : Flattening) :
    (flattening.merge more).map.toList = flattening.map.toList ++
      more.map.toList.map (Segment.behind flattening.text.utf8ByteSize) := by
  simp [merge, SourceMap.toList]

theorem ext_toList {a b : Flattening} (htext : a.text = b.text)
    (hsegments : a.map.toList = b.map.toList) : a = b := by
  obtain ⟨text, ⟨segments⟩⟩ := a
  obtain ⟨text', ⟨segments'⟩⟩ := b
  simp_all [SourceMap.toList]

@[simp] theorem merge_empty (flattening : Flattening) :
    flattening.merge empty = flattening := by
  apply ext_toList <;> simp [merge, empty, SourceMap.empty]

theorem merge_assoc (a b c : Flattening) : (a.merge b).merge c = a.merge (b.merge c) := by
  apply ext_toList
  · exact String.append_assoc
  · simp only [toList_merge, List.map_append, List.map_map, List.append_assoc]
    congr 2
    apply List.map_congr_left
    intro segment _
    rw [Function.comp_apply, Segment.behind_behind]
    simp [merge]

/-- An emission is one segment behind what there is. -/
theorem emit_eq_merge {flattening : Flattening} (h : flattening.Tiled)
    (excerpt : Excerpt) :
    flattening.emit excerpt = flattening.merge (empty.emit excerpt) := by
  by_cases htext : excerpt.text = ""
  · rw [emit_of_empty htext, emit_of_empty htext, merge_empty]
  · apply ext_toList
    · simp [merge, emit, empty]
    · rw [toList_merge, toList_emit htext, toList_emit htext, h.generatedLength_eq]
      simp [empty, SourceMap.empty, SourceMap.toList, SourceMap.generatedLength,
        Segment.behind, Span.shift, Nat.add_comm]

/-- Emissions are the same behind any text as at the start. -/
theorem foldl_emit_eq_merge {flattening : Flattening} (h : flattening.Tiled)
    (excerpts : List Excerpt) :
    excerpts.foldl emit flattening = flattening.merge (excerpts.foldl emit empty) := by
  induction excerpts generalizing flattening with
  | nil => exact (merge_empty flattening).symm
  | cons excerpt rest ih =>
    calc (excerpt :: rest).foldl emit flattening
        = (flattening.emit excerpt).merge (rest.foldl emit empty) := ih (h.emit excerpt)
      _ = flattening.merge ((empty.emit excerpt).merge (rest.foldl emit empty)) := by
        rw [emit_eq_merge h, merge_assoc]
      _ = flattening.merge ((excerpt :: rest).foldl emit empty) := by
        rw [List.foldl_cons, ih (Tiled.empty.emit excerpt)]

end Flattening

/-! ## The children of a root -/

namespace Trail

variable {parent parent' node : Node} {payload : Payload}

/-- What is emitted for a leaf depends on no children of its parent. -/
theorem filterMap_extract_congr (h : parent'.Alike parent) :
    (extract parent' node payload).filterMap excerpt? =
      (extract parent node payload).filterMap excerpt? := by
  by_cases hd : parent.kind = .paragraph ∧ node.kind = .str
  · rw [filterMap_extract_of_direct hd.1 hd.2,
      filterMap_extract_of_direct (h.kind.trans hd.1) hd.2]
  · have hd' : ¬ (parent'.kind = .paragraph ∧ node.kind = .str) := by rwa [h.kind]
    have hcontainer :
        (Excerpt.container parent' node).Alike (Excerpt.container parent node) :=
      Excerpt.alike_container h ⟨rfl, rfl, rfl⟩
    rw [filterMap_extract_of_padded hd, filterMap_extract_of_padded hd',
      Excerpt.locate_congr hcontainer, hcontainer.range]

/-- Neither does what is emitted for a child of it. -/
theorem runs_keep_congr (h : parent'.Alike parent) :
    runs .keep parent' node = runs .keep parent node := by
  cases hp : node.payload with
  | some payload =>
    rw [runs_of_payload rfl hp, runs_of_payload rfl hp, filterMap_extract_congr h]
  | none => rw [runs_of_no_payload rfl hp, runs_of_no_payload rfl hp]

theorem excerpts_keep_congr (h : parent'.Alike parent) (nodes : List Node) :
    excerpts .keep parent' nodes = excerpts .keep parent nodes := by
  rw [excerpts_eq_flatMap, excerpts_eq_flatMap]
  exact List.flatMap_congr fun node _ => runs_keep_congr h

end Trail

namespace Flattening

open Trail

/-- A root flattened with other children emits what these yield under it. -/
theorem ofRoot_with_children (root : Node) (nodes : List Node) :
    ofRoot { root with children := nodes } =
      (excerpts .keep root nodes).foldl emit empty := by
  have halike : { root with children := nodes }.Alike root := ⟨rfl, rfl, rfl⟩
  rw [ofRoot_eq, excerpts_keep_congr halike]

theorem foldl_emit_excerpts_append (root : Node) (as bs : List Node) :
    (excerpts .keep root (as ++ bs)).foldl emit empty =
      ((excerpts .keep root as).foldl emit empty).merge
        ((excerpts .keep root bs).foldl emit empty) := by
  rw [excerpts_eq_flatMap, List.flatMap_append, ← excerpts_eq_flatMap,
    ← excerpts_eq_flatMap, List.foldl_append,
    foldl_emit_eq_merge (Tiled.empty.foldl_emit _)]

/-- A child without a payload yields what it is flattened to itself. -/
theorem foldl_emit_excerpts_of_no_payload (root : Node) {child : Node}
    (h : child.payload = none) :
    (excerpts .keep root [child]).foldl emit empty = ofRoot child := by
  rw [excerpts_eq_flatMap, List.flatMap_singleton, runs_of_no_payload rfl h, ofRoot_eq]

/-! ## Composition -/

mutual

/-- A tree put together from its parts: from the payloads of its children, each of which
is flattened alone under its parent, and from the trees below the children that have
none. -/
def compose : Node → Flattening
  | node@⟨_, _, _, _, children, _, _⟩ => composeAll node children

def composeAll (parent : Node) : List Node → Flattening
  | [] => empty
  | node :: rest =>
    (if node.payload.isSome then ofRoot { parent with children := [node] }
      else compose node).merge (composeAll parent rest)

end

theorem compose_eq (node : Node) : compose node = composeAll node node.children := by
  cases node
  rw [compose]

theorem composeAll_eq_foldl_emit {parent : Node} {nodes : List Node}
    (h : ∀ node ∈ nodes, compose node = ofRoot node) :
    composeAll parent nodes = (excerpts .keep parent nodes).foldl emit empty := by
  induction nodes with
  | nil => rfl
  | cons node rest ih =>
    have hnode := h node List.mem_cons_self
    have hrest := ih fun node hnode => h node (List.mem_cons_of_mem _ hnode)
    have hsplit := foldl_emit_excerpts_append parent [node] rest
    rw [List.singleton_append] at hsplit
    rw [composeAll, hrest, hsplit]
    cases hp : node.payload with
    | some payload => simp [ofRoot_with_children]
    | none => simp [foldl_emit_excerpts_of_no_payload parent hp, hnode]

theorem ofRoot_eq_compose (root : Node) : ofRoot root = compose root := by
  induction root using Node.induction_on_children with
  | step root ih =>
    rw [ofRoot_eq, compose_eq,
      composeAll_eq_foldl_emit fun child hchild => (ih child hchild).symm]

/-- A root with two lists of children is flattened as with the first one and behind it
with the second one, and a root whose only child has no payload is flattened as that
child. So a tree is flattened to its parts in their order, at every depth. -/
theorem ofRoot_of_parts :
    (∀ (root : Node) (as bs : List Node), ofRoot { root with children := as ++ bs } =
      (ofRoot { root with children := as }).merge (ofRoot { root with children := bs })) ∧
    (∀ root child : Node, child.payload = none →
      ofRoot { root with children := [child] } = ofRoot child) ∧
    ∀ root : Node, ofRoot root = compose root := by
  refine ⟨?_, ?_, ofRoot_eq_compose⟩
  · intro root as bs
    simp only [ofRoot_with_children]
    exact foldl_emit_excerpts_append root as bs
  · intro root child h
    rw [ofRoot_with_children]
    exact foldl_emit_excerpts_of_no_payload root h

/-- A document inside a quotation is flattened as by itself. -/
theorem ofRoot_of_parts_quoted :
    Node.sample.payload = none ∧ (ofRoot .sample).text = "éxb" ∧
      ofRoot { Node.spanning .container Node.sampleSource ⟨0, 10⟩ with
        children := [.sample] } = ofRoot .sample :=
  ⟨by decide, by decide,
    ofRoot_of_parts.2.1 (.spanning .container Node.sampleSource ⟨0, 10⟩)
      .sample (by decide)⟩

end Flattening

end ProseMap
