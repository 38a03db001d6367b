import ProseMap.Proofs.Fidelity

/-!
# Coverage

A lookup answers about every offset of the text except the one at the end that its bias
leaves out, and about no other. It answers from the one segment that holds the offset,
never past the content of that segment. Where two segments meet, the bias decides between
them. -/

namespace ProseMap

namespace Segment

/-- Of two segments in a row at most one holds an offset. -/
theorem not_holds_both {a b : Segment} {offset : Nat} {bias : Bias}
    (h : a.generated.stop ≤ b.generated.start) :
    ¬ (a.holds offset bias = true ∧ b.holds offset bias = true) := by
  intro ⟨ha, hb⟩
  cases bias with
  | start =>
    rw [holds_start_iff] at ha hb
    omega
  | stop =>
    rw [holds_stop_iff] at ha hb
    omega

/-- The start of a segment leads to the start of its content. -/
theorem sourceOffset_start {segment : Segment}
    (h : segment.markup.contains segment.content = true) :
    segment.sourceOffset segment.generated.start = segment.content.start := by
  rw [sourceOffset_eq h, Nat.sub_self, Nat.zero_min, Nat.add_zero]

namespace Row

variable {start stop offset : Nat} {bias : Bias} {segments : List Segment}
  {segment : Segment}

/-- A segment that holds an offset is the only one of a row that does. -/
theorem filter_holds (h : Row start segments stop) (hmem : segment ∈ segments)
    (hh : segment.holds offset bias = true) :
    segments.filter (·.holds offset bias) = [segment] := by
  obtain ⟨before, after, rfl⟩ := List.append_of_mem hmem
  obtain ⟨-, hafter, hbefore⟩ := List.pairwise_append.mp h.pairwise
  have hbefore' : before.filter (·.holds offset bias) = [] := by
    rw [List.filter_eq_nil_iff]
    intro a ha hholds
    exact not_holds_both (hbefore a ha segment List.mem_cons_self) ⟨hholds, hh⟩
  have hafter' : after.filter (·.holds offset bias) = [] := by
    rw [List.filter_eq_nil_iff]
    intro b hb hholds
    exact not_holds_both ((List.pairwise_cons.mp hafter).1 b hb) ⟨hh, hholds⟩
  simp [hh, hbefore', hafter']

/-- Where two segments of a row meet, the first one stops and the second one starts. -/
theorem holds_between {before after : List Segment} {a b : Segment}
    (h : Row start (before ++ a :: b :: after) stop) :
    a.generated.stop = b.generated.start ∧ a.holds b.generated.start .stop = true ∧
      b.holds b.generated.start .start = true := by
  obtain ⟨middle, -, hrow⟩ := h.exists_of_append
  have ha := hrow.bounds (List.mem_cons_self (l := b :: after))
  have hb := hrow.bounds (List.mem_cons_of_mem a List.mem_cons_self)
  have hmeet : b.generated.start = a.generated.stop := by
    cases hrow with
    | cons _ _ _ hrest => exact hrest.start_of_mem_head? rfl
  rw [holds_stop_iff, holds_start_iff]
  omega

end Row

end Segment

namespace SourceMap

/-- What a lookup answers is the offset in the segment that holds what was asked for. -/
theorem sourceOffset?_eq_some_iff {map : SourceMap} (h : map.Ordered) {offset found : Nat}
    {bias : Bias} :
    map.sourceOffset? offset bias = some found ↔
      ∃ segment ∈ map.toList, segment.holds offset bias = true ∧
        segment.sourceOffset offset = found := by
  simp only [sourceOffset?, Option.map_eq_some_iff, segmentAt?_eq_some_iff h, and_assoc]

/-- The lookups in the map of a text. -/
structure Covers (map : SourceMap) (text : String) : Prop where
  /-- As a start every offset but the end of the text is found. -/
  start_iff : ∀ offset, (∃ found, map.sourceOffset? offset .start = some found) ↔
    offset < text.utf8ByteSize
  /-- As a stop every offset but the start of the text is found. -/
  stop_iff : ∀ offset, (∃ found, map.sourceOffset? offset .stop = some found) ↔
    0 < offset ∧ offset ≤ text.utf8ByteSize
  /-- The answer comes from the only segment that holds the offset, and is as far into its
  content as the offset is into the segment, or at the end of the content if that is
  shorter. -/
  found : ∀ offset bias found, map.sourceOffset? offset bias = some found →
    ∃ segment, map.toList.filter (·.holds offset bias) = [segment] ∧
      map.segmentAt? offset bias = some segment ∧
      found = segment.content.start +
        min (offset - segment.generated.start) segment.content.length
  /-- Where two segments meet, a start is the start of the second one's content, and a
  stop is as far into the first one's content as that one's text is wide. -/
  between : ∀ before a b after, map.toList = before ++ a :: b :: after →
    a.generated.stop = b.generated.start ∧
      map.sourceOffset? b.generated.start .start = some b.content.start ∧
      map.sourceOffset? b.generated.start .stop =
        some (a.content.start + min a.text.utf8ByteSize a.content.length)

end SourceMap

namespace Flattening

/-- A map covers the text that it tiles, if the content of each segment lies in its
markup. -/
theorem Tiled.covers {flattening : Flattening} (h : flattening.Tiled)
    (hin : ∀ s ∈ flattening.map.toList, s.markup.contains s.content = true) :
    flattening.map.Covers flattening.text := by
  have found_iff (offset : Nat) (bias : Bias) :
      (∃ found, flattening.map.sourceOffset? offset bias = some found) ↔
        ∃ segment ∈ flattening.map.toList, segment.holds offset bias = true := by
    simp only [SourceMap.sourceOffset?_eq_some_iff h.ordered]
    constructor
    · intro ⟨_, segment, hmem, hh, _⟩
      exact ⟨segment, hmem, hh⟩
    · intro ⟨segment, hmem, hh⟩
      exact ⟨_, segment, hmem, hh, rfl⟩
  refine ⟨?_, ?_, ?_, ?_⟩
  · intro offset
    rw [found_iff, h.row.exists_holds_start_iff, h.generatedLength_eq]
    simp
  · intro offset
    rw [found_iff, h.row.exists_holds_stop_iff, h.generatedLength_eq]
  · intro offset bias found hfound
    obtain ⟨segment, hmem, hh, rfl⟩ :=
      (SourceMap.sourceOffset?_eq_some_iff h.ordered).mp hfound
    exact ⟨segment, h.row.filter_holds hmem hh,
      (SourceMap.segmentAt?_eq_some_iff h.ordered).mpr ⟨hmem, hh⟩,
      Segment.sourceOffset_eq (hin segment hmem) offset⟩
  · intro before a b after hsegments
    have ha : a ∈ flattening.map.toList := by simp [hsegments]
    have hb : b ∈ flattening.map.toList := by simp [hsegments]
    obtain ⟨hmeet, hstop, hstart⟩ := (hsegments ▸ h.row).holds_between
    have hwidth : b.generated.start - a.generated.start = a.text.utf8ByteSize := by
      have hbounds := h.row.bounds ha
      omega
    refine ⟨hmeet, ?_, ?_⟩
    · rw [SourceMap.sourceOffset?_of_holds h.ordered hb hstart,
        Segment.sourceOffset_start (hin b hb)]
    · rw [SourceMap.sourceOffset?_of_holds h.ordered ha hstop,
        Segment.sourceOffset_eq (hin a ha), hwidth]

theorem covers_of_ofRedacted {redactor : Redactor} {root : Node} {flattening : Flattening}
    (h : ofRedacted redactor root = .ok flattening) :
    flattening.map.Covers flattening.text := by
  refine (tiled_of_ofRedacted h).covers ?_
  rw [eq_of_ofRedacted h]
  exact (tiles_of_excerpts redactor root).contains

end Flattening

namespace Projection

/-- Whatever the tree and the redactor are, the lookups of a construction that succeeds
cover its text, and so do those of the projection that is built from it. -/
theorem covers_of_construction (root : Node) :
    (∀ redactor flattening, Flattening.ofRedacted redactor root = .ok flattening →
      flattening.map.Covers flattening.text) ∧
    ∀ options projection, build root options = .ok projection →
      projection.map.Covers projection.generated.text := by
  refine ⟨fun redactor flattening => Flattening.covers_of_ofRedacted, ?_⟩
  intro options projection h
  obtain ⟨flattening, hf, rfl⟩ := build_eq_ok_iff.mp h
  exact Flattening.covers_of_ofRedacted hf

/-- Behind a mask that is wider than the letter under it, a stop is clamped to the end of
the letter, and a start is in the strong text that follows. -/
theorem covers_of_wide_mask :
    ∃ projection, build .sample { redactor := some (maskCode '✱') } = .ok projection ∧
      projection.map.sourceOffset? 5 .start = some 7 ∧
      projection.map.sourceOffset? 5 .stop = some 4 ∧
      projection.map.Covers projection.generated.text :=
  ⟨_, rfl, by decide, by decide,
    (covers_of_construction .sample).2 { redactor := some (maskCode '✱') } _ rfl⟩

end Projection

end ProseMap
