import ProseMap.Proofs.Lookup

/-!
# Fidelity

The text of a document stands in its source, run by run, and every piece of a run is found
there by looking up its two ends. -/

namespace ProseMap

namespace Trail

variable {redactor : Redactor} {root parent node : Node} {payload : Payload}

/-- Where an excerpt of an unredacted tree stands, the source reads as the excerpt
does. -/
theorem slice?_of_emit_mem_extract {source : String} (hc : root.CutFrom source)
    (hv : root.Verbatim) (hleaf : Leaf .keep root parent node payload) {excerpt : Excerpt}
    (he : Step.emit excerpt ∈ extract parent node payload) :
    excerpt.content.slice? source = some excerpt.text := by
  obtain ⟨hopen, hmem, hp⟩ := leaf_keep_iff.mp hleaf
  rcases emit_mem_extract_iff.mp he with ⟨hparent, hnode, rfl⟩ | ⟨-, content, hl, rfl⟩
  · rw [hv parent hopen.mem_preorder hparent node hmem hnode payload hp]
    exact hc node hleaf.mem_preorder
  · rw [Excerpt.needle_of_payload hp] at hl
    exact Excerpt.slice?_of_locate (hc _ hleaf.container_mem_preorder) hl

end Trail

namespace Flattening

theorem tiled_ofRoot (root : Node) : (ofRoot root).Tiled := by
  rw [ofRoot_eq]
  exact Tiled.empty.foldl_emit _

theorem tiled_of_ofRedacted {redactor : Redactor} {root : Node} {flattening : Flattening}
    (h : ofRedacted redactor root = .ok flattening) : flattening.Tiled := by
  rw [eq_of_ofRedacted h]
  exact Tiled.empty.foldl_emit _

/-- What a segment of an unredacted tree says about its content and its markup. -/
theorem slice?_content {source : String} {root : Node} (hc : root.CutFrom source)
    (hv : root.Verbatim) {segment : Segment} (h : segment ∈ (ofRoot root).map.toList) :
    segment.content.slice? source = some segment.text ∧
      segment.markup.contains segment.content = true := by
  rw [ofRoot_eq] at h
  obtain ⟨parent, node, payload, excerpt, hleaf, he, hmarkup, hcontent, htext⟩ :=
    exists_leaf_of_mem h
  rw [hmarkup, hcontent, htext]
  exact ⟨Trail.slice?_of_emit_mem_extract hc hv hleaf he,
    Trail.contains_of_emit_mem_extract he⟩

/-- In a segment whose content reads as its text, the source offset of an offset is as far
into the content as the offset is into the run. -/
theorem sourceOffset_of_slice?_content {source : String} {segment : Segment}
    {offset : Nat} (hcontent : segment.content.slice? source = some segment.text)
    (hin : segment.markup.contains segment.content = true)
    (hstop : offset ≤ segment.generated.start + segment.text.utf8ByteSize) :
    segment.sourceOffset offset =
      segment.content.start + (offset - segment.generated.start) := by
  have hlength := Span.length_of_slice? hcontent
  rw [Segment.sourceOffset_eq hin, Span.length, Nat.min_eq_left]
  omega

/-- The text of a document is in the source where the segments say. Each segment's content
is its text, and two ends of a piece of a segment, the first looked up as a start and the
second as a stop, are the ends of the same piece of the source. -/
theorem pieces_found_in_source {source : String} {root : Node} (hc : root.CutFrom source)
    (hv : root.Verbatim) :
    ∀ segment ∈ (ofRoot root).map.toList,
      segment.content.slice? source = some segment.text ∧
      ∀ s e, Text.IsBoundary (ofRoot root).text.toList s →
        Text.IsBoundary (ofRoot root).text.toList e → s < e →
        segment.generated.start ≤ s → e ≤ segment.generated.stop →
        ∃ a b piece, (ofRoot root).map.sourceOffset? s .start = some a ∧
          (ofRoot root).map.sourceOffset? e .stop = some b ∧ a ≤ b ∧
          (Span.mk a b).slice? source = some piece ∧
          (Span.mk s e).slice? (ofRoot root).text = some piece := by
  intro segment hmem
  obtain ⟨hcontent, hin⟩ := slice?_content hc hv hmem
  refine ⟨hcontent, ?_⟩
  intro s e hs he hlt hstart hstop
  have htiled := tiled_ofRoot root
  obtain ⟨-, hlength, -, -⟩ := htiled.row.bounds hmem
  have hrun := htiled.row.slice?_join hmem
  rw [← htiled.text_eq] at hrun
  obtain ⟨piece, hpiece⟩ := Text.exists_slice? hs he (Nat.le_of_lt hlt)
  -- the piece, cut out of the run first and then, with the run, out of the source
  have hsource := Text.slice?_trans (Span.slice?_eq_some_iff.mp hcontent)
    (Text.slice?_of_slice?_within (Span.slice?_eq_some_iff.mp hrun) hpiece hstart hstop)
  refine ⟨_, _, String.ofList piece,
    SourceMap.sourceOffset?_of_holds htiled.ordered hmem
      (Segment.holds_start_iff.mpr ⟨hstart, by omega⟩),
    SourceMap.sourceOffset?_of_holds htiled.ordered hmem
      (Segment.holds_stop_iff.mpr ⟨by omega, hstop⟩), ?_⟩
  rw [sourceOffset_of_slice?_content hcontent hin (by omega),
    sourceOffset_of_slice?_content hcontent hin (by omega)]
  refine ⟨by omega, ?_, ?_⟩
  · rw [Span.slice?_eq_some_iff, String.toList_ofList]
    exact hsource
  · rw [Span.slice?_eq_some_iff, String.toList_ofList]
    exact hpiece

/-- The strong text of the sample is found behind its delimiter. -/
theorem pieces_found_in_source_sample :
    Node.sample.CutFrom Node.sampleSource ∧ Node.sample.Verbatim ∧
      ∃ a b piece, (ofRoot .sample).map.sourceOffset? 3 .start = some a ∧
        (ofRoot .sample).map.sourceOffset? 4 .stop = some b ∧ a ≤ b ∧
        (Span.mk a b).slice? Node.sampleSource = some piece ∧
        (Span.mk 3 4).slice? (ofRoot .sample).text = some piece :=
  ⟨by decide, by decide,
    (pieces_found_in_source (by decide) (by decide) ⟨⟨5, 10⟩, ⟨7, 8⟩, ⟨3, 4⟩, "b"⟩
      (by decide)).2 3 4 (by decide) (by decide) (by decide) (by decide) (by decide)⟩

end Flattening

end ProseMap
