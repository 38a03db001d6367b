import ProseMap.Proofs.Tiling

/-!
# Lookups

In a map whose segments are in order a lookup by bisection answers with the one segment
that holds the offset (`segmentAt?_eq_some_iff`). -/

namespace ProseMap

namespace Segment

theorem holds_start_iff {segment : Segment} {offset : Nat} :
    segment.holds offset .start = true ↔
      segment.generated.start ≤ offset ∧ offset < segment.generated.stop := by
  rw [holds, Bool.and_eq_true, decide_eq_true_eq, decide_eq_true_eq]

theorem holds_stop_iff {segment : Segment} {offset : Nat} :
    segment.holds offset .stop = true ↔
      segment.generated.start < offset ∧ offset ≤ segment.generated.stop := by
  rw [holds, Bool.and_eq_true, decide_eq_true_eq, decide_eq_true_eq]

/-- With either bias an offset that a segment holds is not outside of it. -/
theorem bounds_of_holds {segment : Segment} {offset : Nat} {bias : Bias}
    (h : segment.holds offset bias = true) :
    segment.generated.start ≤ offset ∧ offset ≤ segment.generated.stop := by
  cases bias with
  | start =>
    rw [holds_start_iff] at h
    omega
  | stop =>
    rw [holds_stop_iff] at h
    omega

/-- A segment that another one follows stops before the offsets that the other one
holds. -/
theorem stopsBefore_of_holds {a segment : Segment} {offset : Nat} {bias : Bias}
    (h : a.generated.stop ≤ segment.generated.start)
    (hh : segment.holds offset bias = true) :
    SourceMap.stopsBefore offset bias a = true := by
  cases bias with
  | start => exact decide_eq_true (Nat.le_trans h (holds_start_iff.mp hh).1)
  | stop => exact decide_eq_true (Nat.lt_of_le_of_lt h (holds_stop_iff.mp hh).1)

/-- A segment that does not stop before another one does not stop before what that one
holds. -/
theorem not_stopsBefore_of_holds {b segment : Segment} {offset : Nat} {bias : Bias}
    (h : segment.generated.stop ≤ b.generated.stop)
    (hh : segment.holds offset bias = true) :
    ¬ SourceMap.stopsBefore offset bias b = true := by
  intro hstops
  cases bias with
  | start =>
    have hle : b.generated.stop ≤ offset := of_decide_eq_true hstops
    have hlt := (holds_start_iff.mp hh).2
    omega
  | stop =>
    have hlt : b.generated.stop < offset := of_decide_eq_true hstops
    have hle := (holds_stop_iff.mp hh).2
    omega

/-- Where the content starts inside the markup, the way into a segment counts from
there. -/
theorem sourceOffset_eq {segment : Segment}
    (h : segment.markup.contains segment.content = true) (offset : Nat) :
    segment.sourceOffset offset =
      segment.content.start +
        min (offset - segment.generated.start) segment.content.length := by
  rw [Span.contains_iff] at h
  rw [sourceOffset]
  omega

namespace Row

variable {start stop offset : Nat} {segments : List Segment}

/-- As starts, the offsets of a row are held up to its end. -/
theorem exists_holds_start_iff (h : Row start segments stop) :
    (∃ segment ∈ segments, segment.holds offset .start = true) ↔
      start ≤ offset ∧ offset < stop := by
  simp only [holds_start_iff]
  constructor
  · intro ⟨segment, hmem, hstart, hstop⟩
    have hbounds := h.bounds hmem
    omega
  · intro ⟨hstart, hstop⟩
    exact h.exists_mem_of_lt hstart hstop

/-- As stops, they are held from behind its start. -/
theorem exists_holds_stop_iff (h : Row start segments stop) :
    (∃ segment ∈ segments, segment.holds offset .stop = true) ↔
      start < offset ∧ offset ≤ stop := by
  simp only [holds_stop_iff]
  constructor
  · intro ⟨segment, hmem, hstart, hstop⟩
    have hbounds := h.bounds hmem
    omega
  · intro ⟨hstart, hstop⟩
    -- the offset is a stop in the segment that holds the byte before it
    have hlo : start ≤ offset - 1 := by omega
    have hhi : offset - 1 < stop := by omega
    obtain ⟨segment, hmem, hsegment⟩ := h.exists_mem_of_lt hlo hhi
    exact ⟨segment, hmem, by omega, by omega⟩

end Row

end Segment

namespace SourceMap

/-- Every segment stops before any later one starts, and before it stops. -/
def Ordered (map : SourceMap) : Prop :=
  map.toList.Pairwise fun a b =>
    a.generated.stop ≤ b.generated.start ∧ a.generated.stop ≤ b.generated.stop

/-- Before the segment that holds an offset all segments stop too early for it, and from
it on none does: this is where the bisection ends. -/
theorem bisect_eq_of_holds {map : SourceMap} (h : map.Ordered) {i : Nat}
    (hi : i < map.segments.size) {offset : Nat} {bias : Bias}
    (hh : map.segments[i].holds offset bias = true) :
    bisect (stopsBefore offset bias) map.segments = i := by
  have hordered := List.pairwise_iff_getElem.mp h
  refine bisect_eq_of_turns (Nat.le_of_lt hi) ?_ ?_
  · -- the segments before it
    intro j hj
    have hlt : j < map.segments.size := Nat.lt_trans hj hi
    rw [Array.getElem?_eq_getElem hlt]
    exact Segment.stopsBefore_of_holds (hordered j i hlt hi hj).1 hh
  · -- the segment itself, those after it, and what lies behind the last one
    intro j hj
    by_cases hlt : j < map.segments.size
    · rw [Array.getElem?_eq_getElem hlt]
      refine Segment.not_stopsBefore_of_holds ?_ hh
      rcases Nat.eq_or_lt_of_le hj with rfl | hj
      · exact Nat.le_refl _
      · exact (hordered i j hi hlt hj).2
    · rw [Array.getElem?_eq_none (Nat.le_of_not_lt hlt)]
      exact Bool.false_ne_true

/-- A lookup answers with the segment that holds the offset. -/
theorem segmentAt?_eq_some_iff {map : SourceMap} (h : map.Ordered) {offset : Nat}
    {bias : Bias} {segment : Segment} :
    map.segmentAt? offset bias = some segment ↔
      segment ∈ map.toList ∧ segment.holds offset bias = true := by
  rw [segmentAt?, Option.filter_eq_some_iff]
  constructor
  · intro ⟨hfound, hh⟩
    exact ⟨Array.mem_toList_iff.mpr (Array.mem_of_getElem? hfound), hh⟩
  · intro ⟨hmem, hh⟩
    obtain ⟨i, hi, rfl⟩ := Array.mem_iff_getElem.mp (Array.mem_toList_iff.mp hmem)
    rw [bisect_eq_of_holds h hi hh]
    exact ⟨Array.getElem?_eq_getElem hi, hh⟩

/-- The source offset of an offset that a segment holds is that segment's. -/
theorem sourceOffset?_of_holds {map : SourceMap} (h : map.Ordered) {segment : Segment}
    {offset : Nat} {bias : Bias} (hmem : segment ∈ map.toList)
    (hh : segment.holds offset bias = true) :
    map.sourceOffset? offset bias = some (segment.sourceOffset offset) := by
  rw [sourceOffset?, (segmentAt?_eq_some_iff h).mpr ⟨hmem, hh⟩]
  rfl

end SourceMap

/-- The segments of a tiling are in order. -/
theorem Flattening.Tiled.ordered {flattening : Flattening} (h : flattening.Tiled) :
    flattening.map.Ordered := by
  refine h.row.pairwise.imp_of_mem ?_
  intro a b _ hb hle
  have hbounds := h.row.bounds hb
  exact ⟨hle, by omega⟩

end ProseMap
