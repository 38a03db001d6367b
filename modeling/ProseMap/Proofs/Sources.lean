import ProseMap.Proofs.Coverage
import ProseMap.Proofs.Queries

/-!
# Sources

A document that is a whole text is its own source. If it is only the first part of a
longer text, then that text, given as the source, changes no answer: a lookup never leads
out of the document, and in there positions do not depend on what follows. -/

namespace ProseMap

/-! ## Positions in a longer text -/

/-- Up to the end of a text, positions in it are positions in every text that goes on from
it. -/
theorem NumberedText.position?_of_isPrefix {short long : NumberedText} {offset : Nat}
    (h : short.text.toList <+: long.text.toList)
    (hle : offset ≤ short.text.utf8ByteSize) :
    short.position? offset = long.position? offset := by
  rw [← Text.byteLength_toList] at hle
  ext position
  rw [position?_eq_some_iff, position?_eq_some_iff]
  constructor
  · intro ⟨upto, hupto, hlength, hposition⟩
    exact ⟨upto, hupto.trans h, hlength, hposition⟩
  · intro ⟨upto, hupto, hlength, hposition⟩
    exact ⟨upto, Text.prefix_of_byteLength_le hupto h (hlength ▸ hle), hlength, hposition⟩

/-! ## Documents that are a whole text -/

/-- A root that spans its own markup from offset zero on, and all spans of whose tree lie
in that, with their ends in order. -/
structure Node.Enclosed (root : Node) : Prop where
  range_eq : root.range = ⟨0, root.raw.utf8ByteSize⟩
  ordered : ∀ node ∈ root.preorder, node.range.start ≤ node.range.stop
  inside : ∀ node ∈ root.preorder, root.range.contains node.range = true

namespace Trail

variable {redactor : Redactor} {root parent node : Node} {payload : Payload}
  {excerpt : Excerpt}

/-- In such a document every excerpt lies in the markup of the root. -/
theorem content_of_enclosed (h : root.Enclosed)
    (hleaf : Leaf redactor root parent node payload)
    (he : Step.emit excerpt ∈ extract parent node payload) :
    excerpt.content.start ≤ excerpt.content.stop ∧
      excerpt.content.stop ≤ root.raw.utf8ByteSize := by
  constructor
  · rcases emit_mem_extract_iff.mp he with ⟨-, -, rfl⟩ | ⟨-, content, hl, rfl⟩
    · exact h.ordered node hleaf.mem_preorder
    · obtain ⟨_, _, _, hle, _⟩ := Excerpt.locate_eq_ok_iff.mp hl
      exact hle
  · have hmarkup := contains_of_emit_mem_extract he
    rw [markup_of_emit_mem_extract he] at hmarkup
    have hin := Span.contains_trans (h.inside _ hleaf.container_mem_preorder) hmarkup
    rw [Span.contains_iff, h.range_eq] at hin
    exact hin.2

end Trail

/-- A lookup in a segment does not lead past the content of it. -/
theorem Segment.sourceOffset_le {segment : Segment}
    (h : segment.markup.contains segment.content = true)
    (hordered : segment.content.start ≤ segment.content.stop) (offset : Nat) :
    segment.sourceOffset offset ≤ segment.content.stop := by
  rw [sourceOffset_eq h, Span.length]
  omega

/-- In such a document no lookup leads out of the markup of the root. -/
theorem Flattening.sourceOffset?_le {redactor : Redactor} {root : Node}
    {flattening : Flattening} (h : root.Enclosed)
    (hf : ofRedacted redactor root = .ok flattening) {offset found : Nat} {bias : Bias}
    (hfound : flattening.map.sourceOffset? offset bias = some found) :
    found ≤ root.raw.utf8ByteSize := by
  obtain ⟨segment, hmem, -, rfl⟩ :=
    (SourceMap.sourceOffset?_eq_some_iff (tiled_of_ofRedacted hf).ordered).mp hfound
  rw [eq_of_ofRedacted hf] at hmem
  obtain ⟨parent, node, payload, excerpt, hleaf, he, hmarkup, hcontent, -⟩ :=
    exists_leaf_of_mem hmem
  obtain ⟨hordered, hstop⟩ := Trail.content_of_enclosed h hleaf he
  have hin := Trail.contains_of_emit_mem_extract he
  rw [← hmarkup, ← hcontent] at hin
  rw [← hcontent] at hordered hstop
  exact Nat.le_trans (Segment.sourceOffset_le hin hordered offset) hstop

/-! ## The same answers -/

namespace Projection

/-- Two projections that no query tells apart. -/
structure SameAnswers (a b : Projection) : Prop where
  offsetOfOffset : ∀ offset bias,
    a.offsetOfOffset? offset bias = b.offsetOfOffset? offset bias
  offsetOfPosition : ∀ position bias,
    a.offsetOfPosition? position bias = b.offsetOfPosition? position bias
  positionOfOffset : ∀ offset bias,
    a.positionOfOffset? offset bias = b.positionOfOffset? offset bias
  positionOfPosition : ∀ position bias,
    a.positionOfPosition? position bias = b.positionOfPosition? position bias
  positionOfRequest : ∀ value, a.positionOfRequest value = b.positionOfRequest value

/-- Sources that agree on everything a lookup leads to make no difference. -/
theorem sameAnswers_ofFlattening {flattening : Flattening} {source source' : String}
    (h : ∀ offset bias found, flattening.map.sourceOffset? offset bias = some found →
      (NumberedText.of source).position? found =
        (NumberedText.of source').position? found) :
    SameAnswers (ofFlattening flattening (some source))
      (ofFlattening flattening (some source')) := by
  have hoffset (offset : Nat) (bias : Bias) :
      (ofFlattening flattening (some source)).positionOfOffset? offset bias =
        (ofFlattening flattening (some source')).positionOfOffset? offset bias := by
    rw [positionOfOffset?_eq_bind, positionOfOffset?_eq_bind]
    exact Option.bind_congr fun found hfound => h offset bias found hfound
  have hposition (position : Position) (bias : Bias) :
      (ofFlattening flattening (some source)).positionOfPosition? position bias =
        (ofFlattening flattening (some source')).positionOfPosition? position bias := by
    rw [positionOfPosition?_eq_bind, positionOfPosition?_eq_bind]
    refine Option.bind_congr fun found hfound => ?_
    obtain ⟨offset, -, hfound⟩ := Option.bind_eq_some_iff.mp hfound
    exact h offset bias found hfound
  refine ⟨fun _ _ => rfl, fun _ _ => rfl, hoffset, hposition, ?_⟩
  intro value
  simp only [positionOfRequest, hposition]

/-- A document that is a whole text gives the same answers with its own markup as the
source and with any text that starts with it, whatever is redacted. -/
theorem sameAnswers_of_longer_source {root : Node} {source : String} (h : root.Enclosed)
    (hgoes : root.raw.toList <+: source.toList) :
    (∃ supplied, build root { source := some source } = .ok supplied ∧
      (ofRoot root).SameAnswers supplied) ∧
    ∀ redactor derived, build root { redactor } = .ok derived →
      ∃ supplied, build root { source := some source, redactor } = .ok supplied ∧
        derived.SameAnswers supplied := by
  have of_build (redactor : Option Redactor) (derived : Projection)
      (hbuild : build root { redactor } = .ok derived) :
      ∃ supplied, build root { source := some source, redactor } = .ok supplied ∧
        derived.SameAnswers supplied := by
    obtain ⟨flattening, hf, rfl⟩ := build_eq_ok_iff.mp hbuild
    refine ⟨_, build_eq_ok_iff.mpr ⟨flattening, hf, rfl⟩, ?_⟩
    have hderived : Options.sourceText { redactor } root = some root.raw := by
      simp [Options.sourceText, h.range_eq]
    have hsupplied :
        Options.sourceText { source := some source, redactor } root = some source :=
      rfl
    rw [hderived, hsupplied]
    refine sameAnswers_ofFlattening fun offset bias found hfound => ?_
    exact NumberedText.position?_of_isPrefix hgoes
      (Flattening.sourceOffset?_le h hf hfound)
  exact ⟨of_build none _ rfl, of_build⟩

/-- A line that ends in running text, behind a code span. -/
def line : Node :=
  { Node.spanning .document "`x`é" ⟨0, 5⟩ with
    children :=
      [{ Node.spanning .paragraph "`x`é" ⟨0, 5⟩ with
        children :=
          [{ Node.spanning .code "`x`é" ⟨0, 3⟩ with value := some "x" },
           { Node.spanning .str "`x`é" ⟨3, 5⟩ with value := some "é" }] }] }

/-- The end of the line is the end of the shorter source, and in front of a line feed in
the longer one. -/
theorem sameAnswers_of_longer_source_line :
    (line.Enclosed ∧ line.raw.toList <+: "`x`é\nz".toList) ∧
    ∃ derived supplied,
      build line { redactor := some (maskCode '✱') } = .ok derived ∧
      build line { source := some "`x`é\nz", redactor := some (maskCode '✱') } =
        .ok supplied ∧
      derived.positionOfOffset? 5 .stop = some ⟨1, 4⟩ ∧
      supplied.positionOfOffset? 5 .stop = some ⟨1, 4⟩ ∧
      derived.SameAnswers supplied := by
  have henclosed : line.Enclosed := ⟨by decide, by decide, by decide⟩
  have hgoes : line.raw.toList <+: "`x`é\nz".toList := ⟨['\n', 'z'], by decide⟩
  obtain ⟨supplied, hsupplied, hsame⟩ :=
    (sameAnswers_of_longer_source henclosed hgoes).2 (maskCode '✱') _ rfl
  exact ⟨⟨henclosed, hgoes⟩, _, supplied, rfl, hsupplied, by decide,
    hsame.positionOfOffset 5 .stop ▸ by decide, hsame⟩

end Projection

end ProseMap
