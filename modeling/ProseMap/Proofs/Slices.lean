import ProseMap.Excerpt

/-!
# Slices of texts

A slice is known by the text before it and after it. From that form follow a slice of a
slice, the slice that a search finds, and the slice of a part of the text around it. -/

namespace ProseMap

namespace Text

/-! ## Characters of one width -/

theorem byteLength_of_width {cs : List Char} {width : Nat}
    (h : ∀ c ∈ cs, c.utf8Size = width) :
    byteLength cs = cs.length * width := by
  induction cs with
  | nil => simp
  | cons c cs ih =>
    rw [byteLength_cons, ih fun d hd => h d (List.mem_cons_of_mem _ hd),
      h c List.mem_cons_self, List.length_cons, Nat.succ_mul, Nat.add_comm]

theorem byteLength_replicate (count : Nat) (c : Char) :
    byteLength (List.replicate count c) = count * c.utf8Size := by
  rw [byteLength_of_width fun d hd => by rw [List.eq_of_mem_replicate hd],
    List.length_replicate]

/-! ## Prefixes and boundaries -/

/-- Of two prefixes of a text the one with fewer bytes is a prefix of the other. -/
theorem prefix_of_byteLength_le {cs ds es : List Char} (hd : ds <+: cs) (he : es <+: cs)
    (h : byteLength ds ≤ byteLength es) : ds <+: es := by
  rcases List.prefix_or_prefix_of_prefix hd he with hp | ⟨rest, rfl⟩
  · exact hp
  · have hrest : rest = [] := by
      apply byteLength_eq_zero_iff.mp
      rw [byteLength_append] at h
      omega
    exact ⟨[], by rw [hrest, List.append_nil, List.append_nil]⟩

theorem isBoundary_zero (cs : List Char) : IsBoundary cs 0 :=
  ⟨[], List.nil_prefix, rfl⟩

theorem le_of_isBoundary {cs : List Char} {offset : Nat} (h : IsBoundary cs offset) :
    offset ≤ byteLength cs := by
  obtain ⟨before, ⟨after, rfl⟩, rfl⟩ := h
  rw [byteLength_append]
  exact Nat.le_add_right _ _

/-- What stands between two boundaries can be cut out. -/
theorem exists_slice? {cs : List Char} {start stop : Nat} (hstart : IsBoundary cs start)
    (hstop : IsBoundary cs stop) (h : start ≤ stop) :
    ∃ middle, slice? cs start stop = some middle := by
  obtain ⟨before, hb, rfl⟩ := hstart
  obtain ⟨upto, hu, rfl⟩ := hstop
  obtain ⟨middle, rfl⟩ := prefix_of_byteLength_le hb hu h
  obtain ⟨after, rfl⟩ := hu
  exact ⟨middle,
    slice?_eq_some_iff.mpr ⟨before, after, rfl, rfl, by rw [byteLength_append]⟩⟩

/-! ## Slices -/

theorem slice?_mid (before middle after : List Char) :
    slice? (before ++ middle ++ after) (byteLength before)
      (byteLength before + byteLength middle) = some middle :=
  slice?_eq_some_iff.mpr ⟨before, after, rfl, rfl, rfl⟩

/-- A slice is as long as its ends are apart. -/
theorem length_of_slice? {cs middle : List Char} {start stop : Nat}
    (h : slice? cs start stop = some middle) : start + byteLength middle = stop := by
  obtain ⟨_, _, _, _, h⟩ := slice?_eq_some_iff.mp h
  exact h

/-- A slice of a slice is a slice. -/
theorem slice?_trans {cs middle inner : List Char} {start stop lo hi : Nat}
    (h : slice? cs start stop = some middle) (h' : slice? middle lo hi = some inner) :
    slice? cs (start + lo) (start + hi) = some inner := by
  obtain ⟨before, after, rfl, rfl, _⟩ := slice?_eq_some_iff.mp h
  obtain ⟨before', after', rfl, rfl, rfl⟩ := slice?_eq_some_iff.mp h'
  refine slice?_eq_some_iff.mpr ⟨before ++ before', after' ++ after, ?_, ?_, ?_⟩
  · simp only [List.append_assoc]
  · rw [byteLength_append]
  · omega

/-- A slice between the ends of a part of the text is a slice of that part. -/
theorem slice?_of_slice?_within {cs middle inner : List Char} {start stop lo hi : Nat}
    (h : slice? cs start stop = some middle) (h' : slice? cs lo hi = some inner)
    (hstart : start ≤ lo) (hstop : hi ≤ stop) :
    slice? middle (lo - start) (hi - start) = some inner := by
  obtain ⟨before, after, hcs, rfl, rfl⟩ := slice?_eq_some_iff.mp h
  obtain ⟨before', after', hcs', rfl, rfl⟩ := slice?_eq_some_iff.mp h'
  -- what lies between the two starts leads the part,
  -- and what lies between the two stops ends it
  have hbefore : before <+: before' :=
    prefix_of_byteLength_le ⟨middle ++ after, by rw [← List.append_assoc, hcs]⟩
      ⟨inner ++ after', by rw [← List.append_assoc, hcs']⟩ hstart
  obtain ⟨lead, rfl⟩ := hbefore
  have hle : byteLength (before ++ lead ++ inner) ≤ byteLength (before ++ middle) := by
    simpa only [byteLength_append] using hstop
  obtain ⟨tail, htail⟩ := prefix_of_byteLength_le ⟨after', hcs'⟩ ⟨after, hcs⟩ hle
  rw [List.append_assoc, List.append_assoc, List.append_cancel_left_eq] at htail
  refine slice?_eq_some_iff.mpr ⟨lead, tail, by rw [← htail, List.append_assoc], ?_, ?_⟩
  · rw [byteLength_append]
    omega
  · rw [byteLength_append]
    omega

/-- The first characters of a slice are a slice from the same place. -/
theorem slice?_take {cs middle : List Char} {start stop : Nat}
    (h : slice? cs start stop = some middle) (count : Nat) :
    slice? cs start (start + byteLength (middle.take count)) =
      some (middle.take count) := by
  obtain ⟨before, after, rfl, hstart, -⟩ := slice?_eq_some_iff.mp h
  refine slice?_eq_some_iff.mpr ⟨before, middle.drop count ++ after, ?_, hstart, rfl⟩
  rw [List.append_assoc, ← List.append_assoc (middle.take count), List.take_append_drop,
    List.append_assoc]

/-- Of two slices from one place the longer one starts with the other. -/
theorem prefix_of_slice? {cs middle longer : List Char} {start stop upto : Nat}
    (h : slice? cs start stop = some middle)
    (hlonger : slice? cs start upto = some longer) (hle : stop ≤ upto) :
    middle <+: longer := by
  have hinner := slice?_of_slice?_within hlonger h (Nat.le_refl start) hle
  obtain ⟨lead, after, heq, hlead, -⟩ := slice?_eq_some_iff.mp hinner
  rw [Nat.sub_self, byteLength_eq_zero_iff] at hlead
  exact ⟨after, by rw [← heq, hlead, List.nil_append]⟩

/-- The boundaries of a slice are those of the text that lie between its ends. -/
theorem isBoundary_of_slice? {cs middle : List Char} {start stop distance : Nat}
    (h : slice? cs start stop = some middle) (hle : distance ≤ byteLength middle) :
    IsBoundary cs (start + distance) ↔ IsBoundary middle distance := by
  obtain ⟨before, after, rfl, rfl, -⟩ := slice?_eq_some_iff.mp h
  rw [List.append_assoc]
  constructor
  · intro ⟨upto, hupto, hlength⟩
    obtain ⟨inner, rfl⟩ :=
      prefix_of_byteLength_le (List.prefix_append before _) hupto (by omega)
    rw [byteLength_append, Nat.add_left_cancel_iff] at hlength
    rw [List.prefix_append_right_inj] at hupto
    exact ⟨inner,
      prefix_of_byteLength_le hupto (List.prefix_append _ _) (by omega), hlength⟩
  · intro ⟨inner, hinner, hlength⟩
    refine ⟨before ++ inner, ?_, by rw [byteLength_append, hlength]⟩
    rw [List.prefix_append_right_inj]
    exact hinner.trans (List.prefix_append _ _)

/-! ## Searching -/

theorem slice?_tail (c : Char) (cs : List Char) :
    slice? (c :: cs) c.utf8Size (c.utf8Size + byteLength cs) = some cs :=
  slice?_eq_some_iff.mpr ⟨[c], [], by simp, by simp, rfl⟩

theorem slice?_of_isPrefixOf {needle cs : List Char} (h : needle.isPrefixOf cs = true) :
    slice? cs 0 (0 + byteLength needle) = some needle := by
  obtain ⟨after, hafter⟩ := List.isPrefixOf_iff_prefix.mp h
  exact slice?_eq_some_iff.mpr ⟨[], after, hafter, rfl, rfl⟩

/-- A search stops at an occurrence. -/
theorem slice?_of_find? {needle cs : List Char} {offset : Nat}
    (h : find? needle cs = some offset) :
    slice? cs offset (offset + byteLength needle) = some needle := by
  induction cs generalizing offset with
  | nil =>
    simp only [find?] at h
    split at h
    · rename_i hn
      cases h
      subst hn
      exact slice?_mid [] [] []
    · cases h
  | cons c cs ih =>
    simp only [find?] at h
    split at h
    · rename_i hp
      cases h
      exact slice?_of_isPrefixOf hp
    · obtain ⟨rest, hrest, rfl⟩ := Option.map_eq_some_iff.mp h
      rw [Nat.add_assoc]
      exact slice?_trans (slice?_tail c cs) (ih hrest)

end Text

/-- The search in markup stops at an occurrence too, whichever of its two ways it goes. -/
theorem Excerpt.slice?_of_find? {needle cs : List Char} {offset : Nat}
    (h : Excerpt.find? needle cs = some offset) :
    Text.slice? cs offset (offset + Text.byteLength needle) = some needle := by
  cases cs with
  | nil => exact Text.slice?_of_find? h
  | cons c cs =>
    rcases Option.or_eq_some_iff.mp h with hlater | ⟨-, hfirst⟩
    · -- behind the first character
      obtain ⟨rest, hrest, rfl⟩ := Option.map_eq_some_iff.mp hlater
      rw [Nat.add_assoc]
      exact Text.slice?_trans (Text.slice?_tail c cs) (Text.slice?_of_find? hrest)
    · -- only at the start
      split at hfirst
      · rename_i hp
        cases hfirst
        exact Text.slice?_of_isPrefixOf hp
      · cases hfirst

/-! ## Spans -/

namespace Span

theorem contains_iff {outer inner : Span} :
    outer.contains inner = true ↔
      outer.start ≤ inner.start ∧ inner.stop ≤ outer.stop := by
  rw [contains, Bool.and_eq_true, decide_eq_true_eq, decide_eq_true_eq]

theorem contains_refl (span : Span) : span.contains span = true :=
  contains_iff.mpr ⟨Nat.le_refl _, Nat.le_refl _⟩

theorem contains_trans {outer middle inner : Span} (h : outer.contains middle = true)
    (h' : middle.contains inner = true) : outer.contains inner = true := by
  rw [contains_iff] at *
  omega

theorem slice?_eq_some_iff {span : Span} {text part : String} :
    span.slice? text = some part ↔
      Text.slice? text.toList span.start span.stop = some part.toList := by
  rw [slice?, Option.map_eq_some_iff]
  constructor
  · rintro ⟨cs, h, rfl⟩
    rw [String.toList_ofList]
    exact h
  · intro h
    exact ⟨part.toList, h, String.ofList_toList⟩

/-- The part of a text that a span covers is as long as the span's ends are apart. -/
theorem length_of_slice? {span : Span} {text part : String}
    (h : span.slice? text = some part) :
    span.start + part.utf8ByteSize = span.stop := by
  rw [← Text.byteLength_toList]
  exact Text.length_of_slice? (slice?_eq_some_iff.mp h)

end Span

end ProseMap
