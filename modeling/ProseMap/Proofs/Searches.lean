import ProseMap.Proofs.Coverage

/-!
# Searches

A bisection of the segments answers as looking at them one after the other would. It needs
less than a tiling for that: segments may leave gaps, be empty, or have the ends of their
spans the wrong way round, as long as each starts and stops no earlier than the one before
it stops. -/

namespace ProseMap

/-! ## Chains of segments -/

/-- Whether a segment can be followed by one that starts and stops no earlier than it
stops. -/
def Segment.Leads (a b : Segment) : Prop :=
  a.generated.stop ≤ b.generated.start ∧ a.generated.stop ≤ b.generated.stop

instance : Trans Segment.Leads Segment.Leads Segment.Leads where
  trans hab hbc := ⟨Nat.le_trans hab.2 hbc.1, Nat.le_trans hab.2 hbc.2⟩

namespace SourceMap

variable {map : SourceMap}

/-- Every segment can follow the one before it. -/
def Chained (map : SourceMap) : Prop :=
  map.toList.IsChain Segment.Leads

/-- What holds between neighbours holds between any two segments. -/
theorem Chained.ordered (h : map.Chained) : map.Ordered := by
  have hpairwise : map.toList.Pairwise Segment.Leads := List.isChain_iff_pairwise.mp h
  exact hpairwise

theorem Chained.empty : Chained empty :=
  .nil

/-- Appending a run keeps the chain, also if the run is empty. -/
theorem Chained.push (h : map.Chained) (markup content : Span) (text : String) :
    (map.push markup content text).Chained := by
  by_cases htext : text = ""
  · rw [htext, push_empty]
    exact h
  · rw [Chained, toList_push _ _ _ htext, List.isChain_append]
    refine ⟨h, .singleton _, ?_⟩
    intro last hlast segment hsegment
    obtain rfl := Option.some.inj hsegment
    have hstop := stop_of_mem_getLast? hlast
    exact ⟨Nat.le_of_eq hstop, Nat.le_trans (Nat.le_of_eq hstop) (Nat.le_add_right _ _)⟩

/-- A table that is built from nothing by appending runs. -/
inductive Built : SourceMap → Prop where
  | empty : Built empty
  | push {map : SourceMap} (h : Built map) (markup content : Span) (text : String) :
      Built (map.push markup content text)

theorem Built.chained (h : Built map) : map.Chained := by
  induction h with
  | empty => exact .empty
  | push _ markup content text ih => exact ih.push markup content text

/-! ## One by one -/

/-- A table in which a lookup answers as a scan of its segments does. -/
structure Scanned (map : SourceMap) : Prop where
  /-- The answer is the first segment that holds the offset, and there is none if none
  does. -/
  first : ∀ offset bias, map.segmentAt? offset bias =
    map.toList.find? (·.holds offset bias)
  /-- No two segments hold the same offset. -/
  unique : ∀ offset bias (i j : Nat) (hi : i < map.toList.length)
    (hj : j < map.toList.length),
    map.toList[i].holds offset bias = true →
      map.toList[j].holds offset bias = true → i = j
  /-- An offset as a start and the offset behind it as a stop belong to the same
  segment. -/
  next : ∀ offset, map.segmentAt? (offset + 1) .stop = map.segmentAt? offset .start

theorem Ordered.index_unique (h : map.Ordered) {offset : Nat} {bias : Bias} {i j : Nat}
    (hi : i < map.toList.length) (hj : j < map.toList.length)
    (hhi : map.toList[i].holds offset bias = true)
    (hhj : map.toList[j].holds offset bias = true) :
    i = j := by
  have hordered := List.pairwise_iff_getElem.mp h
  rcases Nat.lt_trichotomy i j with hlt | heq | hlt
  · exact absurd ⟨hhi, hhj⟩ (Segment.not_holds_both (hordered i j hi hj hlt).1)
  · exact heq
  · exact absurd ⟨hhj, hhi⟩ (Segment.not_holds_both (hordered j i hj hi hlt).1)

/-- Where segments are in order, bisection stops at the one at which a scan would. -/
theorem Ordered.segmentAt?_eq_find? (h : map.Ordered) (offset : Nat) (bias : Bias) :
    map.segmentAt? offset bias = map.toList.find? (·.holds offset bias) := by
  cases hfind : map.toList.find? (·.holds offset bias) with
  | none =>
    rw [Option.eq_none_iff_forall_ne_some]
    intro segment hsegment
    obtain ⟨hmem, hh⟩ := (segmentAt?_eq_some_iff h).mp hsegment
    exact List.find?_eq_none.mp hfind segment hmem hh
  | some segment =>
    have hmem := List.mem_of_find?_eq_some hfind
    have hh : segment.holds offset bias = true := by simpa using List.find?_some hfind
    exact (segmentAt?_eq_some_iff h).mpr ⟨hmem, hh⟩

theorem holds_succ_stop (segment : Segment) (offset : Nat) :
    segment.holds (offset + 1) .stop = segment.holds offset .start := by
  rw [Bool.eq_iff_iff, Segment.holds_stop_iff, Segment.holds_start_iff]
  omega

theorem Ordered.scanned (h : map.Ordered) : map.Scanned where
  first := h.segmentAt?_eq_find?
  unique := fun _ _ _ _ hi hj => h.index_unique hi hj
  next := by
    intro offset
    rw [h.segmentAt?_eq_find?, h.segmentAt?_eq_find?]
    simp only [holds_succ_stop]

/-- A lookup is as good as a scan in every table that was built by appending, and in every
other one, such as one that was loaded, whose segments form a chain. -/
theorem scanned_of_chained :
    (∀ map, Built map → map.Scanned) ∧ ∀ map : SourceMap, map.Chained → map.Scanned :=
  ⟨fun _ h => h.chained.ordered.scanned, fun _ h => h.ordered.scanned⟩

/-- A table with a gap, an empty segment, and one whose ends are the wrong way round. -/
def gapped : SourceMap :=
  ⟨#[⟨⟨0, 2⟩, ⟨0, 2⟩, ⟨1, 3⟩, "ab"⟩, ⟨⟨2, 2⟩, ⟨2, 2⟩, ⟨3, 3⟩, ""⟩,
    ⟨⟨2, 3⟩, ⟨2, 3⟩, ⟨6, 4⟩, "c"⟩, ⟨⟨3, 4⟩, ⟨3, 4⟩, ⟨4, 5⟩, "d"⟩]⟩

/-- Behind an empty run, and between and behind the segments of a table with gaps. -/
theorem scanned_of_gapped :
    (∃ map, Built map ∧ map.size = 1 ∧
      map.segmentAt? 3 .stop = map.toList.find? (·.holds 3 .stop)) ∧
    gapped.Chained ∧ gapped.segmentAt? 3 .start = none ∧
      (gapped.segmentAt? 4 .start).map (·.text) = some "d" ∧
      gapped.segmentAt? 5 .stop = gapped.segmentAt? 4 .start := by
  have hbuilt : Built ((empty.push ⟨0, 1⟩ ⟨0, 0⟩ "").push ⟨0, 7⟩ ⟨2, 5⟩ "str") :=
    .push (.push .empty _ _ _) _ _ _
  have hchained : gapped.Chained := by
    rw [Chained]
    simp [gapped, toList, Segment.Leads]
  have hscanned := scanned_of_chained.2 gapped hchained
  refine ⟨⟨_, hbuilt, rfl, (scanned_of_chained.1 _ hbuilt).first 3 .stop⟩,
    hchained, ?_, ?_, hscanned.next 4⟩
  · rw [hscanned.first]
    decide
  · rw [hscanned.first]
    decide

end SourceMap

end ProseMap
