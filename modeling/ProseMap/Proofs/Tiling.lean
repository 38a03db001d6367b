import Mathlib.Data.List.Chain
import ProseMap.Projection
import ProseMap.Proofs.Walks

/-!
# Tilings

The segments of a flattened tree tile its text: they follow each other without a gap, none
is empty, and together they are the text. One emission keeps this (`Tiled.emit`), so every
flattening has it, whatever its tree looks like and whatever was redacted. -/

namespace ProseMap

/-! ## Segments in a row -/

namespace Segment

/-- Segments that are as long as their texts and not empty, the first of which starts at
an offset and each other one where the one before it stops. -/
inductive Row : Nat → List Segment → Nat → Prop
  | nil (start : Nat) : Row start [] start
  | cons {start stop : Nat} {segment : Segment} {rest : List Segment}
      (hstart : segment.generated.start = start) (htext : segment.text ≠ "")
      (hstop : segment.generated.stop = start + segment.text.utf8ByteSize)
      (hrest : Row segment.generated.stop rest stop) : Row start (segment :: rest) stop

namespace Row

theorem append {start middle stop : Nat} {segments more : List Segment}
    (h : Row start segments middle) (hmore : Row middle more stop) :
    Row start (segments ++ more) stop := by
  induction h with
  | nil => exact hmore
  | cons hstart htext hstop _ ih => exact .cons hstart htext hstop (ih hmore)

/-- A row can be taken apart anywhere. -/
theorem exists_of_append {start stop : Nat} {segments more : List Segment}
    (h : Row start (segments ++ more) stop) :
    ∃ middle, Row start segments middle ∧ Row middle more stop := by
  induction segments generalizing start with
  | nil => exact ⟨start, .nil start, h⟩
  | cons segment rest ih =>
    cases h with
    | cons hstart htext hstop hrest =>
      obtain ⟨middle, hleft, hright⟩ := ih hrest
      exact ⟨middle, .cons hstart htext hstop hleft, hright⟩

/-- A row is as long as its texts together. -/
theorem length_eq {start stop : Nat} {segments : List Segment}
    (h : Row start segments stop) :
    start + (String.join (segments.map (·.text))).utf8ByteSize = stop := by
  induction h with
  | nil => rfl
  | cons _ _ hstop _ ih =>
    rw [List.map_cons, String.join_cons, String.utf8ByteSize_append]
    omega

theorem start_of_mem_head? {start stop : Nat} {segments : List Segment}
    (h : Row start segments stop) {segment : Segment} (hmem : segment ∈ segments.head?) :
    segment.generated.start = start := by
  cases h with
  | nil => cases hmem
  | cons hstart _ _ _ =>
    cases hmem
    exact hstart

/-- Every segment of a row lies between the row's ends and is not empty. -/
theorem bounds {start stop : Nat} {segments : List Segment} (h : Row start segments stop)
    {segment : Segment} (hmem : segment ∈ segments) :
    start ≤ segment.generated.start ∧
      segment.generated.stop = segment.generated.start + segment.text.utf8ByteSize ∧
      segment.generated.start < segment.generated.stop ∧
        segment.generated.stop ≤ stop := by
  induction h with
  | nil => cases hmem
  | cons hstart htext hstop hrest ih =>
    have hpos := Nat.pos_of_ne_zero (mt String.utf8ByteSize_eq_zero_iff.mp htext)
    have htotal := hrest.length_eq
    rcases List.mem_cons.mp hmem with rfl | hmem
    · omega
    · have hin := ih hmem
      omega

/-- In a row every segment stops before any later one starts. -/
theorem pairwise {start stop : Nat} {segments : List Segment}
    (h : Row start segments stop) :
    segments.Pairwise (fun a b => a.generated.stop ≤ b.generated.start) := by
  induction h with
  | nil => exact List.Pairwise.nil
  | cons _ _ _ hrest ih =>
    refine List.pairwise_cons.mpr ⟨?_, ih⟩
    intro segment hmem
    exact (hrest.bounds hmem).1

/-- In a row every segment starts where the one before it stops. -/
theorem isChain {start stop : Nat} {segments : List Segment}
    (h : Row start segments stop) :
    segments.IsChain (fun a b => b.generated.start = a.generated.stop) := by
  induction h with
  | nil => exact .nil
  | cons _ _ _ hrest ih =>
    cases hrest with
    | nil => exact .singleton _
    | cons hstart _ _ _ => exact .cons_cons hstart ih

/-- A row leaves no offset out. -/
theorem exists_mem_of_lt {start stop offset : Nat} {segments : List Segment}
    (h : Row start segments stop) (hstart : start ≤ offset) (hstop : offset < stop) :
    ∃ segment ∈ segments, segment.generated.start ≤ offset ∧
      offset < segment.generated.stop := by
  induction h with
  | nil => omega
  | @cons start stop segment rest hs _ _ _ ih =>
    by_cases hin : offset < segment.generated.stop
    · exact ⟨segment, List.mem_cons_self, by omega, hin⟩
    · obtain ⟨found, hmem, hfound⟩ := ih (by omega) hstop
      exact ⟨found, List.mem_cons_of_mem _ hmem, hfound⟩

/-- A segment of a row that starts at offset zero has the text that the row has there. -/
theorem slice?_join {stop : Nat} {segments : List Segment} (h : Row 0 segments stop)
    {segment : Segment} (hmem : segment ∈ segments) :
    segment.generated.slice? (String.join (segments.map (·.text))) =
      some segment.text := by
  -- the texts before the segment are as long as its start is far
  obtain ⟨before, after, rfl⟩ := List.append_of_mem hmem
  obtain ⟨middle, hbefore, hafter⟩ := h.exists_of_append
  cases hafter with
  | cons hstart _ hstop _ =>
    have hlead := hbefore.length_eq
    rw [Span.slice?_eq_some_iff, List.map_append, List.map_cons, String.join_append,
      String.join_cons, String.toList_append, String.toList_append, ← List.append_assoc,
      hstart, hstop, ← hlead, Nat.zero_add, ← Text.byteLength_toList,
      ← Text.byteLength_toList]
    exact Text.slice?_mid _ _ _

end Row

end Segment

/-! ## Flattenings -/

namespace Flattening

/-- The invariant of flattening: the segments are a row from offset zero on, and the text
is theirs. -/
structure Tiled (flattening : Flattening) : Prop where
  row : Segment.Row 0 flattening.map.toList flattening.map.generatedLength
  text_eq : flattening.text = String.join (flattening.map.toList.map (·.text))

theorem Tiled.empty : Tiled empty where
  row := .nil 0
  text_eq := rfl

theorem emit_of_empty {flattening : Flattening} {excerpt : Excerpt}
    (h : excerpt.text = "") :
    flattening.emit excerpt = flattening := by
  rw [emit, h, SourceMap.push_empty, String.append_empty]

theorem toList_emit {flattening : Flattening} {excerpt : Excerpt}
    (h : excerpt.text ≠ "") :
    (flattening.emit excerpt).map.toList =
      flattening.map.toList ++ [⟨excerpt.markup, excerpt.content,
        ⟨flattening.map.generatedLength,
          flattening.map.generatedLength + excerpt.text.utf8ByteSize⟩, excerpt.text⟩] :=
  SourceMap.toList_push _ _ _ h

/-- One emission keeps the tiling. -/
theorem Tiled.emit {flattening : Flattening} (h : flattening.Tiled) (excerpt : Excerpt) :
    (flattening.emit excerpt).Tiled := by
  by_cases htext : excerpt.text = ""
  · rw [emit_of_empty htext]
    exact h
  · refine ⟨?_, ?_⟩
    · rw [toList_emit htext]
      refine h.row.append ?_
      rw [show (flattening.emit excerpt).map.generatedLength
        = flattening.map.generatedLength + excerpt.text.utf8ByteSize from
          SourceMap.generatedLength_push ..]
      exact .cons rfl htext rfl (.nil _)
    · rw [toList_emit htext, List.map_append, String.join_append, ← h.text_eq]
      simp [Flattening.emit]

/-- So does any number of emissions. -/
theorem Tiled.foldl_emit {flattening : Flattening} (h : flattening.Tiled)
    (excerpts : List Excerpt) : (excerpts.foldl Flattening.emit flattening).Tiled := by
  induction excerpts generalizing flattening with
  | nil => exact h
  | cons excerpt rest ih => exact ih (h.emit excerpt)

/-- The segments stop where the text does. -/
theorem Tiled.generatedLength_eq {flattening : Flattening} (h : flattening.Tiled) :
    flattening.map.generatedLength = flattening.text.utf8ByteSize := by
  rw [h.text_eq, ← h.row.length_eq, Nat.zero_add]

/-! ## Where segments come from -/

/-- What a segment takes from the excerpt that it was emitted for. -/
theorem contents_foldl_emit {excerpts : List Excerpt} (h : ∀ e ∈ excerpts, e.text ≠ "")
    (flattening : Flattening) :
    (excerpts.foldl emit flattening).map.toList.map
        (fun s => (s.markup, s.content, s.text)) =
      flattening.map.toList.map (fun s => (s.markup, s.content, s.text)) ++
        excerpts.map (fun e => (e.markup, e.content, e.text)) := by
  induction excerpts generalizing flattening with
  | nil => simp
  | cons excerpt rest ih =>
    have hhead := h excerpt List.mem_cons_self
    have hrest := ih fun e he => h e (List.mem_cons_of_mem _ he)
    rw [List.foldl_cons, hrest, toList_emit hhead, List.map_append, List.append_assoc]
    rfl

end Flattening

theorem Trail.text_ne_of_mem_excerpts {redactor : Redactor} {root : Node}
    {excerpt : Excerpt} (h : excerpt ∈ Trail.excerpts redactor root root.children) :
    excerpt.text ≠ "" := by
  obtain ⟨parent, node, payload, hleaf, he⟩ := Trail.mem_excerpts_iff.mp h
  obtain ⟨redacted, -, hp⟩ := hleaf.redacted
  rw [Trail.text_of_emit_mem_extract he]
  exact (Node.text?_of_payload hp).2

namespace Flattening

variable {redactor : Redactor} {root : Node}

/-- The segments of a tree take their spans and texts from the excerpts of the walk, in
its order. -/
theorem contents_eq (redactor : Redactor) (root : Node) :
    ((Trail.excerpts redactor root root.children).foldl emit empty).map.toList.map
        (fun s => (s.markup, s.content, s.text)) =
      (Trail.excerpts redactor root root.children).map
        (fun e => (e.markup, e.content, e.text)) :=
  contents_foldl_emit (fun _ he => Trail.text_ne_of_mem_excerpts he) empty

/-- Every segment of a tree comes out of a leaf. -/
theorem exists_leaf_of_mem {segment : Segment}
    (h : segment ∈
      ((Trail.excerpts redactor root root.children).foldl emit empty).map.toList) :
    ∃ parent node payload excerpt, Trail.Leaf redactor root parent node payload ∧
      Step.emit excerpt ∈ Trail.extract parent node payload ∧
      segment.markup = excerpt.markup ∧
      segment.content = excerpt.content ∧ segment.text = excerpt.text := by
  have hmem :=
    List.mem_map_of_mem (f := fun s : Segment => (s.markup, s.content, s.text)) h
  rw [contents_eq, List.mem_map] at hmem
  obtain ⟨excerpt, he, heq⟩ := hmem
  obtain ⟨parent, node, payload, hleaf, hemit⟩ := Trail.mem_excerpts_iff.mp he
  simp only [Prod.mk.injEq] at heq
  exact ⟨parent, node, payload, excerpt, hleaf, hemit, heq.1.symm, heq.2.1.symm,
    heq.2.2.symm⟩

/-- Every excerpt of a leaf has its segment. -/
theorem exists_mem_of_leaf {parent node : Node} {payload : Payload} {excerpt : Excerpt}
    (hleaf : Trail.Leaf redactor root parent node payload)
    (he : Step.emit excerpt ∈ Trail.extract parent node payload) :
    ∃ segment ∈
        ((Trail.excerpts redactor root root.children).foldl emit empty).map.toList,
      segment.markup = excerpt.markup ∧ segment.content = excerpt.content ∧
        segment.text = excerpt.text := by
  have hmem := List.mem_map_of_mem (f := fun e : Excerpt => (e.markup, e.content, e.text))
    (Trail.mem_excerpts_iff.mpr ⟨parent, node, payload, hleaf, he⟩)
  rw [← contents_eq, List.mem_map] at hmem
  obtain ⟨segment, hsegment, heq⟩ := hmem
  simp only [Prod.mk.injEq] at heq
  exact ⟨segment, hsegment, heq⟩

end Flattening

/-! ## Constructions -/

/-- The segments of a map tile a text, and each lies with its content inside its
markup. -/
structure SourceMap.Tiles (map : SourceMap) (text : String) : Prop where
  start_eq : ∀ s ∈ map.toList.head?, s.generated.start = 0
  chain : map.toList.IsChain (fun a b => b.generated.start = a.generated.stop)
  nonempty : ∀ s ∈ map.toList, s.generated.start < s.generated.stop
  length_eq : ∀ s ∈ map.toList, s.generated.length = s.text.utf8ByteSize
  stop_eq : ∀ s ∈ map.toList.getLast?, s.generated.stop = text.utf8ByteSize
  text_eq : text = String.join (map.toList.map (·.text))
  slice?_eq : ∀ s ∈ map.toList, s.generated.slice? text = some s.text
  isEmpty_iff : map.isEmpty = true ↔ text = ""
  contains : ∀ s ∈ map.toList, s.markup.contains s.content = true

namespace Flattening

theorem Tiled.isEmpty_iff {flattening : Flattening} (h : flattening.Tiled) :
    flattening.map.isEmpty = true ↔ flattening.text = "" := by
  rw [SourceMap.isEmpty, Array.isEmpty_iff, ← Array.toList_eq_nil_iff]
  constructor
  · intro hnil
    rw [h.text_eq, SourceMap.toList, hnil]
    rfl
  · intro hempty
    have hzero : flattening.map.generatedLength = 0 := by
      rw [h.generatedLength_eq, hempty]
      rfl
    rw [List.eq_nil_iff_forall_not_mem]
    intro segment hmem
    have hbounds := h.row.bounds hmem
    omega

/-- The tiling of a flattening in all its aspects. -/
theorem Tiled.tiles {flattening : Flattening} (h : flattening.Tiled)
    (hin : ∀ s ∈ flattening.map.toList, s.markup.contains s.content = true) :
    flattening.map.Tiles flattening.text where
  start_eq := fun s hs => h.row.start_of_mem_head? hs
  chain := h.row.isChain
  nonempty := fun s hs => (h.row.bounds hs).2.2.1
  length_eq := by
    intro s hs
    have hbounds := h.row.bounds hs
    rw [Span.length]
    omega
  stop_eq := by
    intro s hs
    rw [← h.generatedLength_eq]
    exact SourceMap.stop_of_mem_getLast? hs
  text_eq := h.text_eq
  slice?_eq := by
    intro s hs
    rw [h.text_eq]
    exact h.row.slice?_join hs
  isEmpty_iff := h.isEmpty_iff
  contains := hin

theorem tiles_of_excerpts (redactor : Redactor) (root : Node) :
    ((Trail.excerpts redactor root root.children).foldl emit empty).map.Tiles
      ((Trail.excerpts redactor root root.children).foldl emit empty).text := by
  refine (Tiled.empty.foldl_emit _).tiles ?_
  intro segment hmem
  obtain ⟨parent, node, payload, excerpt, -, he, hmarkup, hcontent, -⟩ :=
    exists_leaf_of_mem hmem
  rw [hmarkup, hcontent]
  exact Trail.contains_of_emit_mem_extract he

end Flattening

namespace Projection

/-- A projection is built from the flattening under the redactor at work, or refused with
it. -/
theorem build_eq (root : Node) (options : Options) :
    build root options = (Flattening.ofRedacted options.activeRedactor root).map
      (ofFlattening · (options.sourceText root)) := by
  obtain ⟨source, redactor⟩ := options
  cases redactor with
  | none =>
    rw [Options.activeRedactor, Option.getD_none, Flattening.ofRedacted_keep]
    rfl
  | some redactor =>
    rw [Options.activeRedactor, Option.getD_some]
    simp only [build]
    cases Flattening.ofRedacted redactor root <;> rfl

theorem build_eq_ok_iff {root : Node} {options : Options} {projection : Projection} :
    build root options = .ok projection ↔
      ∃ flattening, Flattening.ofRedacted options.activeRedactor root = .ok flattening ∧
        projection = ofFlattening flattening (options.sourceText root) := by
  rw [build_eq]
  cases Flattening.ofRedacted options.activeRedactor root with
  | error refusal => simp [Except.map]
  | ok flattening => simp [Except.map, eq_comm]

/-- Whatever the tree and the redactor are, text and segments of a construction that
succeeds fit together, and so do those of the projection that is built from them. -/
theorem tiles_of_construction (root : Node) :
    (∀ redactor flattening, Flattening.ofRedacted redactor root = .ok flattening →
      flattening.map.Tiles flattening.text) ∧
    ∀ options projection, build root options = .ok projection →
      projection.map.Tiles projection.generated.text := by
  have tiles_of_ok {redactor : Redactor} {flattening : Flattening}
      (h : Flattening.ofRedacted redactor root = .ok flattening) :
      flattening.map.Tiles flattening.text := by
    rw [Flattening.eq_of_ofRedacted h]
    exact Flattening.tiles_of_excerpts redactor root
  refine ⟨fun redactor flattening => tiles_of_ok, ?_⟩
  intro options projection h
  rw [build_eq] at h
  cases hf : Flattening.ofRedacted options.activeRedactor root with
  | error refusal =>
    rw [hf] at h
    cases h
  | ok flattening =>
    rw [hf] at h
    cases h
    exact tiles_of_ok hf

/-- Masks code spans. -/
def maskCode (symbol : Char) : Redactor := fun node _ =>
  if node.kind = .code then some (.mask symbol) else none

/-- A mask wider than the character behind it moves what follows, and leaves no gap. -/
theorem tiles_of_wide_mask :
    ∃ projection, build .sample { redactor := some (maskCode '✱') } = .ok projection ∧
      projection.generated.text = "é✱b" ∧
      projection.map.toList.map (·.generated) = [⟨0, 2⟩, ⟨2, 5⟩, ⟨5, 6⟩] ∧
      projection.map.Tiles projection.generated.text :=
  ⟨_, rfl, rfl, rfl,
    (tiles_of_construction .sample).2 { redactor := some (maskCode '✱') } _ rfl⟩

end Projection

end ProseMap
