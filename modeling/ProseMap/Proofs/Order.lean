import ProseMap.Proofs.Fidelity

/-!
# Document order

Payloads come in the order of the document. Where they stand in the source need not: every
payload in a container other than a paragraph is looked for on its own, and the first
occurrence counts, so that two equal payloads of one container stand at the same place.
`inSourceOrder_iff` says that nothing else can go wrong. -/

namespace ProseMap

/-! ## Well-formed trees -/

/-- What a parser that keeps to the source promises: spans of children lie in their
parent's, one after the other, and every text stands in the markup of its node. -/
structure Node.WellFormed (source : String) (root : Node) : Prop where
  cut : root.CutFrom source
  nested : ∀ parent ∈ root.preorder, ∀ child ∈ parent.children,
    parent.range.contains child.range = true
  ascending : ∀ parent ∈ root.preorder,
    parent.children.Pairwise fun a b => a.range.stop ≤ b.range.start
  running : ∀ node ∈ root.preorder, node.kind = .str → node.value = some node.raw
  occurs : ∀ node ∈ root.preorder, ∀ payload ∈ node.payload,
    ¬ (node.kind = .str ∧ payload.field = .value) →
      payload.text.toList <:+: node.raw.toList

/-- In a nested tree every node lies in the span of every node above it. -/
theorem Node.WellFormed.contains {source : String} {root inner node : Node}
    (hw : root.WellFormed source) (hinner : inner ∈ root.preorder)
    (hnode : node ∈ inner.preorder) : inner.range.contains node.range = true := by
  induction inner using Node.induction_on_children with
  | step inner ih =>
    rcases Node.mem_preorder_iff.mp hnode with rfl | ⟨child, hchild, hin⟩
    · exact Span.contains_refl _
    · exact Span.contains_trans (hw.nested inner hinner child hchild)
        (ih child hchild (Node.child_mem_preorder hchild hinner) hin)

/-- The running text of a well-formed tree reads as it is written: another payload of a
text node would have to stand in markup that is empty. -/
theorem Node.WellFormed.verbatim {source : String} {root : Node}
    (hw : root.WellFormed source) :
    root.Verbatim := by
  intro parent hparent _ node hnode hkind payload hp
  have hmem := Node.child_mem_preorder hnode hparent
  have hvalue := hw.running node hmem hkind
  obtain ⟨htext, hne⟩ := Node.text?_of_payload hp
  by_cases hfield : payload.field = .value
  · rw [hfield] at htext
    exact Option.some.inj (htext.symm.trans hvalue)
  · have hraw : node.raw ≠ "" := by
      intro hempty
      have hin := hw.occurs node hmem payload hp fun h => hfield h.2
      rw [hempty] at hin
      exact hne (String.toList_eq_nil_iff.mp (List.infix_nil.mp hin))
    have heq := hp.symm.trans (Node.payload_of_value hvalue hraw)
    rw [Option.some.inj heq]

/-! ## Runs in order -/

namespace Trail

variable {source : String} {root parent node : Node}

/-- Open nodes from the top: a node is open to itself, and to what its children without a
payload are open to. -/
theorem open_keep_iff {inner : Node} :
    Open .keep node inner ↔
      inner = node ∨ ∃ child ∈ node.children, child.payload = none ∧
        Open .keep child inner := by
  constructor
  · intro h
    induction h with
    | root => exact .inl rfl
    | @child above inner redacted _ hmem hr hp ih =>
      cases hr
      rcases ih with rfl | ⟨child, hchild, hnone, hopen⟩
      · exact .inr ⟨inner, hmem, hp, .root⟩
      · exact .inr ⟨child, hchild, hnone, hopen.child hmem rfl hp⟩
  · rintro (rfl | ⟨child, hchild, hnone, hopen⟩)
    · exact .root
    · exact .trans (.child .root hchild rfl hnone) hopen

/-- A relation holds between the excerpts of a tree in their order if it does between
those of any two children of any open node. -/
theorem pairwise_excerpts_iff {R : Excerpt → Excerpt → Prop} (node : Node) :
    (excerpts .keep node node.children).Pairwise R ↔
      ∀ inner, Open .keep node inner → inner.children.Pairwise fun a b =>
        ∀ x ∈ runs .keep inner a, ∀ y ∈ runs .keep inner b, R x y := by
  induction node using Node.induction_on_children with
  | step node ih =>
    rw [excerpts_eq_flatMap, List.pairwise_flatMap]
    constructor
    · intro ⟨hruns, hacross⟩ inner hopen
      rcases open_keep_iff.mp hopen with rfl | ⟨child, hchild, hnone, hopen⟩
      · exact hacross
      · have hchildren := hruns child hchild
        rw [runs_of_no_payload rfl hnone] at hchildren
        exact (ih child hchild).mp hchildren inner hopen
    · intro h
      refine ⟨?_, h node .root⟩
      intro child hchild
      cases hp : child.payload with
      | some payload =>
        -- a leaf has one excerpt at most, and nothing to be out of order
        obtain ⟨excerpt, hexcerpt⟩ := filterMap_extract node child payload
        rw [runs_of_payload rfl hp, hexcerpt]
        cases excerpt with
        | none => exact .nil
        | some excerpt => exact List.pairwise_singleton R excerpt
      | none =>
        rw [runs_of_no_payload rfl hp]
        refine (ih child hchild).mpr ?_
        intro inner hopen
        exact h inner (open_keep_iff.mpr (.inr ⟨child, hchild, hp, hopen⟩))

/-! ## Siblings -/

/-- All text of one child stands before all text of another one. -/
def Before (parent a b : Node) : Prop :=
  ∀ x ∈ runs .keep parent a, ∀ y ∈ runs .keep parent b, x.content.stop ≤ y.content.start

/-- In every container other than a paragraph that the walk opens, a child with a payload
of its own is found in turn: the text of the children before it stands before it, and it
stands before the text of the children after it. -/
def InTurn (root : Node) : Prop :=
  ∀ parent, Open .keep root parent → parent.kind ≠ .paragraph →
    parent.children.Pairwise fun a b =>
      a.payload.isSome ∨ b.payload.isSome → Before parent a b

/-- Every payload that is looked for in its parent's markup is found in its own node's
span. -/
def InPlace (root : Node) : Prop :=
  ∀ parent node payload, Leaf .keep root parent node payload → parent.kind ≠ .paragraph →
    ∀ content, Excerpt.locate parent payload.text = .ok content →
      node.range.contains content = true

/-- The text below a node, and a payload that is looked for in the node itself, stands in
the node's span. -/
theorem range_contains_of_mem_runs (hw : root.WellFormed source)
    (hnode : node ∈ root.preorder) (h : parent.kind = .paragraph ∨ node.payload = none)
    {excerpt : Excerpt} (he : excerpt ∈ runs .keep parent node) :
    node.range.contains excerpt.content = true := by
  cases hp : node.payload with
  | none =>
    rw [runs_of_no_payload rfl hp] at he
    obtain ⟨above, leaf, payload, hleaf, he⟩ := mem_excerpts_iff.mp he
    have hin := contains_of_emit_mem_extract he
    rw [markup_of_emit_mem_extract he] at hin
    exact Span.contains_trans (hw.contains hnode hleaf.container_mem_preorder) hin
  | some payload =>
    have hparent : parent.kind = .paragraph := by
      rcases h with h | h
      · exact h
      · rw [hp] at h
        cases h
    rw [mem_runs_of_payload rfl hp] at he
    have hin := contains_of_emit_mem_extract he
    rw [markup_of_emit_mem_extract he, Excerpt.container, if_pos hparent] at hin
    exact hin

/-- Nodes whose text stands in their own spans are in the order of these. -/
theorem before_of_range_contains {a b : Node} (h : a.range.stop ≤ b.range.start)
    (ha : ∀ x ∈ runs .keep parent a, a.range.contains x.content = true)
    (hb : ∀ y ∈ runs .keep parent b, b.range.contains y.content = true) :
    Before parent a b := by
  intro x hx y hy
  have hxa := Span.contains_iff.mp (ha x hx)
  have hyb := Span.contains_iff.mp (hb y hy)
  omega

/-- The excerpts of a well-formed tree are in the order of the source exactly if those are
in turn whose payloads are looked for in their parents. -/
theorem inTurn_iff (hw : root.WellFormed source) :
    (excerpts .keep root root.children).Pairwise
        (fun x y => x.content.stop ≤ y.content.start) ↔
      InTurn root := by
  rw [pairwise_excerpts_iff]
  constructor
  · intro h parent hopen _
    refine (h parent hopen).imp ?_
    intro a b hbefore _
    exact hbefore
  · intro h parent hopen
    have hparent := hopen.mem_preorder
    have hascending := hw.ascending parent hparent
    -- what is not looked for in the parent stands in its own span, and spans ascend
    have of_own_spans {a b : Node} (ha : a ∈ parent.children) (hb : b ∈ parent.children)
        (hle : a.range.stop ≤ b.range.start)
        (hown : parent.kind = .paragraph ∨ a.payload = none ∧ b.payload = none) :
        Before parent a b :=
      before_of_range_contains hle
        (fun _ => range_contains_of_mem_runs hw (Node.child_mem_preorder ha hparent)
          (hown.imp_right And.left))
        (fun _ => range_contains_of_mem_runs hw (Node.child_mem_preorder hb hparent)
          (hown.imp_right And.right))
    by_cases hkind : parent.kind = .paragraph
    · exact hascending.imp_of_mem fun ha hb hle => of_own_spans ha hb hle (.inl hkind)
    · refine (hascending.and (h parent hopen hkind)).imp_of_mem ?_
      intro a b ha hb ⟨hle, hturn⟩
      by_cases hsome : a.payload.isSome ∨ b.payload.isSome
      · exact hturn hsome
      · simp only [Option.isSome_iff_ne_none, ne_eq, not_or, Decidable.not_not] at hsome
        exact of_own_spans ha hb hle (.inr hsome)

/-- Payloads that are found in their own nodes are found in turn. -/
theorem InPlace.inTurn (h : InPlace root) (hw : root.WellFormed source) :
    InTurn root := by
  intro parent hopen hkind
  have hparent := hopen.mem_preorder
  have in_place {child : Node} (hchild : child ∈ parent.children) :
      ∀ x ∈ runs .keep parent child, child.range.contains x.content = true := by
    intro x hx
    cases hp : child.payload with
    | none =>
      exact range_contains_of_mem_runs hw (Node.child_mem_preorder hchild hparent)
        (.inr hp) hx
    | some payload =>
      rw [mem_runs_of_payload rfl hp] at hx
      rcases emit_mem_extract_iff.mp hx with ⟨hparagraph, -, -⟩ | ⟨-, content, hl, rfl⟩
      · exact absurd hparagraph hkind
      · rw [Excerpt.container, if_neg hkind, Excerpt.needle_of_payload hp] at hl
        exact h parent child payload (leaf_keep_iff.mpr ⟨hopen, hchild, hp⟩) hkind
          content hl
  refine (hw.ascending parent hparent).imp_of_mem ?_
  intro a b ha hb hle _
  exact before_of_range_contains hle (in_place ha) (in_place hb)

end Trail

/-! ## Order in the source -/

namespace Flattening

variable {source : String} {root : Node}

/-- The contents of the segments ascend without an overlap, and so do the source offsets
of the text's offsets. -/
structure InSourceOrder (flattening : Flattening) : Prop where
  contents : flattening.map.toList.Pairwise fun a b => a.content.stop ≤ b.content.start
  offsets : ∀ o p, o < p → p < flattening.text.utf8ByteSize →
    ∃ a b, flattening.map.sourceOffset? o .start = some a ∧
      flattening.map.sourceOffset? p .start = some b ∧ a < b

/-- The segments are in the order of the source if the excerpts are. -/
theorem pairwise_toList_iff (root : Node) :
    (ofRoot root).map.toList.Pairwise (fun a b => a.content.stop ≤ b.content.start) ↔
      (Trail.excerpts .keep root root.children).Pairwise
        (fun x y => x.content.stop ≤ y.content.start) := by
  have hcontents := congrArg
    (List.Pairwise fun (p q : Span × Span × String) => p.2.1.stop ≤ q.2.1.start)
    (contents_eq .keep root)
  rw [List.pairwise_map, List.pairwise_map, ← ofRoot_eq] at hcontents
  exact iff_of_eq hcontents

/-- An offset of the text is looked up in the segment that covers it, and found inside the
segment's content. -/
theorem exists_sourceOffset?_start (hc : root.CutFrom source) (hv : root.Verbatim)
    {offset : Nat} (h : offset < (ofRoot root).text.utf8ByteSize) :
    ∃ segment ∈ (ofRoot root).map.toList,
      segment.generated.start ≤ offset ∧ offset < segment.generated.stop ∧
      (ofRoot root).map.sourceOffset? offset .start =
        some (segment.content.start + (offset - segment.generated.start)) ∧
      segment.content.start + (offset - segment.generated.start) <
        segment.content.stop := by
  have htiled := tiled_ofRoot root
  rw [← htiled.generatedLength_eq] at h
  obtain ⟨segment, hmem, hstart, hstop⟩ := htiled.row.exists_mem_of_lt (Nat.zero_le _) h
  obtain ⟨hcontent, hin⟩ := slice?_content hc hv hmem
  obtain ⟨-, hlength, -, -⟩ := htiled.row.bounds hmem
  have hsize := Span.length_of_slice? hcontent
  refine ⟨segment, hmem, hstart, hstop, ?_, by omega⟩
  rw [SourceMap.sourceOffset?_of_holds htiled.ordered hmem
      (Segment.holds_start_iff.mpr ⟨hstart, hstop⟩),
    sourceOffset_of_slice?_content hcontent hin (by omega)]

/-- Contents that ascend make the source offsets ascend. -/
theorem offsets_of_contents (hc : root.CutFrom source) (hv : root.Verbatim)
    (h : (ofRoot root).map.toList.Pairwise fun a b => a.content.stop ≤ b.content.start)
    {o p : Nat} (hlt : o < p) (hp : p < (ofRoot root).text.utf8ByteSize) :
    ∃ a b, (ofRoot root).map.sourceOffset? o .start = some a ∧
      (ofRoot root).map.sourceOffset? p .start = some b ∧ a < b := by
  obtain ⟨s, hs, hso, hos, ho, hso'⟩ :=
    exists_sourceOffset?_start hc hv (Nat.lt_trans hlt hp)
  obtain ⟨t, ht, htp, hpt, hp', -⟩ := exists_sourceOffset?_start hc hv hp
  refine ⟨_, _, ho, hp', ?_⟩
  obtain ⟨i, hi, rfl⟩ := List.mem_iff_getElem.mp hs
  obtain ⟨j, hj, rfl⟩ := List.mem_iff_getElem.mp ht
  have hrow := List.pairwise_iff_getElem.mp (tiled_ofRoot root).row.pairwise
  -- the later segment cannot hold the earlier offset, so the third case is void
  rcases Nat.lt_trichotomy i j with hij | rfl | hji
  · have hle := List.pairwise_iff_getElem.mp h i j hi hj hij
    omega
  · omega
  · have hle := hrow j i hj hi hji
    omega

/-- The exact condition for a well-formed tree: its text is in the order of the source if
and only if the payloads that are looked for in their parents are found in turn. That is
so if they are found in place. -/
theorem inSourceOrder_iff (hw : root.WellFormed source) :
    ((ofRoot root).InSourceOrder ↔ Trail.InTurn root) ∧
      (Trail.InPlace root → (ofRoot root).InSourceOrder) := by
  have of_inTurn (h : Trail.InTurn root) : (ofRoot root).InSourceOrder := by
    have hcontents := (pairwise_toList_iff root).mpr ((Trail.inTurn_iff hw).mpr h)
    exact ⟨hcontents, fun _ _ => offsets_of_contents hw.cut hw.verbatim hcontents⟩
  refine ⟨⟨?_, of_inTurn⟩, fun h => of_inTurn (h.inTurn hw)⟩
  intro h
  exact (Trail.inTurn_iff hw).mp ((pairwise_toList_iff root).mp h.contents)

/-- The strong text of the sample is found behind its delimiter, and its code span in the
span's own markup. -/
theorem inSourceOrder_sample :
    Node.sample.WellFormed Node.sampleSource ∧ (ofRoot .sample).InSourceOrder := by
  have hw : Node.sample.WellFormed Node.sampleSource :=
    ⟨by decide, by decide, by decide, by decide, by decide⟩
  refine ⟨hw, (inSourceOrder_iff hw).2 ?_⟩
  have hplace : ∀ parent ∈ Node.sample.preorder, parent.kind ≠ .paragraph →
      ∀ node ∈ parent.children, ∀ payload ∈ node.payload,
        ∀ content ∈ (Excerpt.locate parent payload.text).toOption,
          node.range.contains content = true := by
    decide
  intro parent node payload hleaf hkind content hl
  obtain ⟨hopen, hmem, hp⟩ := Trail.leaf_keep_iff.mp hleaf
  exact hplace parent hopen.mem_preorder hkind node hmem payload hp
    content (by rw [hl]; rfl)

/-- Strong text that has the same letter twice, the second time as a code span. -/
def repeated : Node :=
  { Node.spanning .paragraph "**a`a`**" ⟨0, 8⟩ with
    children :=
      [{ Node.spanning .strong "**a`a`**" ⟨0, 8⟩ with
        children :=
          [{ Node.spanning .str "**a`a`**" ⟨2, 3⟩ with value := some "a" },
           { Node.spanning .code "**a`a`**" ⟨3, 6⟩ with value := some "a" }] }] }

/-- Both letters are looked for in the strong text and found at the first of them. -/
theorem not_inSourceOrder_repeated :
    repeated.WellFormed "**a`a`**" ∧
      (ofRoot repeated).map.toList.map (·.content) = [⟨2, 3⟩, ⟨2, 3⟩] ∧
      ¬ ∀ (source : String) (root : Node), root.WellFormed source →
        (ofRoot root).InSourceOrder := by
  have hw : repeated.WellFormed "**a`a`**" :=
    ⟨by decide, by decide, by decide, by decide, by decide⟩
  refine ⟨hw, by decide, ?_⟩
  intro h
  obtain ⟨a, b, ha, hb, hlt⟩ :=
    (h "**a`a`**" repeated hw).offsets 0 1 (by decide) (by decide)
  have ha' : (ofRoot repeated).map.sourceOffset? 0 .start = some 2 := by decide
  have hb' : (ofRoot repeated).map.sourceOffset? 1 .start = some 2 := by decide
  rw [ha'] at ha
  rw [hb'] at hb
  cases ha
  cases hb
  exact Nat.lt_irrefl 2 hlt

end Flattening

end ProseMap
