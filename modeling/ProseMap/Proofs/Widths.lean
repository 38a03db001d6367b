import ProseMap.Proofs.Fidelity

/-!
# Widths

In a tree whose markup is as long as its spans, a payload that is looked for in a
container is as wide in the source as in the text. Running text directly in a paragraph is
not looked for: its span is taken as it is, so that an escaped character makes the widths
differ. -/

namespace ProseMap

/-- A segment is as wide in the generated text and in the source as its text is. -/
def Segment.WidthsAgree (segment : Segment) : Prop :=
  segment.text.utf8ByteSize = segment.generated.length ∧
    segment.generated.length = segment.content.length

instance (segment : Segment) : Decidable segment.WidthsAgree :=
  inferInstanceAs (Decidable (_ ∧ _))

namespace Flattening

variable {root : Node}

/-- In a tiling it is the width in the source that the text has to agree with. -/
theorem widthsAgree_iff_of_mem {segment : Segment}
    (h : segment ∈ (ofRoot root).map.toList) :
    segment.WidthsAgree ↔ segment.text.utf8ByteSize = segment.content.length := by
  have hbounds := (tiled_ofRoot root).row.bounds h
  rw [Segment.WidthsAgree, Span.length]
  omega

/-- A payload that is looked for in a container is as wide as the place where it is
found. -/
theorem length_of_padded {parent node : Node} {payload : Payload} {content : Span}
    (hm : root.Measured) (hleaf : Trail.Leaf .keep root parent node payload)
    (hl : Excerpt.locate (Excerpt.container parent node) (Excerpt.needle node payload) =
      .ok content) : payload.text.utf8ByteSize = content.length := by
  rw [Excerpt.needle_of_payload (Trail.leaf_keep_iff.mp hleaf).2.2] at hl
  have hstop := Excerpt.stop_of_locate (hm.stop_eq hleaf.container_mem_preorder) hl
  rw [Span.length, hstop]
  omega

/-- The exact condition: the widths of all segments agree if and only if running text
directly in a paragraph is as long as its markup, for all such text that the walk
reaches. -/
theorem widthsAgree_iff (hm : root.Measured) :
    (∀ segment ∈ (ofRoot root).map.toList, segment.WidthsAgree) ↔
      ∀ parent node payload, Trail.Leaf .keep root parent node payload →
        parent.kind = .paragraph → node.kind = .str →
        payload.text.utf8ByteSize = node.raw.utf8ByteSize := by
  constructor
  · intro h parent node payload hleaf hp hn
    have he : Step.emit ⟨.direct, node.range, node.range, payload.text⟩ ∈
        Trail.extract parent node payload :=
      Trail.emit_mem_extract_iff.mpr (.inl ⟨hp, hn, rfl⟩)
    obtain ⟨segment, hmem, -, hcontent, htext⟩ := exists_mem_of_leaf hleaf he
    rw [← ofRoot_eq] at hmem
    have hwidth := (widthsAgree_iff_of_mem hmem).mp (h segment hmem)
    rw [hcontent, htext] at hwidth
    rw [hm.size_eq hleaf.mem_preorder]
    exact hwidth
  · intro h segment hmem
    rw [widthsAgree_iff_of_mem hmem]
    rw [ofRoot_eq] at hmem
    obtain ⟨parent, node, payload, excerpt, hleaf, he, -, hcontent, htext⟩ :=
      exists_leaf_of_mem hmem
    rw [hcontent, htext]
    rcases Trail.emit_mem_extract_iff.mp he with ⟨hp, hn, rfl⟩ | ⟨-, content, hl, rfl⟩
    · show payload.text.utf8ByteSize = node.range.length
      rw [h parent node payload hleaf hp hn]
      exact hm.size_eq hleaf.mem_preorder
    · exact length_of_padded hm hleaf hl

/-- The code span and the strong text of the sample are looked for, and its running text
is written as it reads. -/
theorem widthsAgree_sample :
    Node.sample.Measured ∧ ∀ segment ∈ (ofRoot .sample).map.toList,
      segment.WidthsAgree := by
  have hm : Node.sample.Measured := by decide
  have hv : Node.sample.Verbatim := by decide
  refine ⟨hm, (widthsAgree_iff hm).mpr ?_⟩
  intro parent node payload hleaf hp hn
  obtain ⟨hopen, hmem, hpayload⟩ := Trail.leaf_keep_iff.mp hleaf
  rw [hv parent hopen.mem_preorder hp node hmem hn payload hpayload]

/-- A paragraph with an escaped ampersand. -/
def escaped : Node :=
  { Node.spanning .paragraph "&amp;" ⟨0, 5⟩ with
    children := [{ Node.spanning .str "&amp;" ⟨0, 5⟩ with value := some "&" }] }

/-- The escape is five bytes of source for one byte of text. -/
theorem not_widthsAgree_escaped :
    escaped.Measured ∧
      (ofRoot escaped).map.toList = [⟨⟨0, 5⟩, ⟨0, 5⟩, ⟨0, 1⟩, "&"⟩] ∧
      ¬ ∀ root : Node, root.Measured →
        ∀ segment ∈ (ofRoot root).map.toList, segment.WidthsAgree := by
  refine ⟨by decide, by decide, ?_⟩
  intro h
  have hagree := h escaped (by decide) ⟨⟨0, 5⟩, ⟨0, 5⟩, ⟨0, 1⟩, "&"⟩ (by decide)
  exact absurd hagree (by decide)

end Flattening

end ProseMap
