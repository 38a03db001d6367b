import ProseMap.Proofs.Outcomes

/-!
# Occurrences

Where a payload is found in the markup of its container: at the first place behind the
first character, or at the start if it stands nowhere else. What is left of the markup on
both sides then decides whether the payload is emitted, and with which span. -/

namespace ProseMap

/-! ## First occurrences -/

namespace Text

/-- A text stands at a byte offset of another one. -/
def OccursAt (needle cs : List Char) (offset : Nat) : Prop :=
  slice? cs offset (offset + byteLength needle) = some needle

variable {needle cs : List Char} {offset : Nat}

theorem occursAt_iff :
    OccursAt needle cs offset ↔
      ∃ before after, before ++ needle ++ after = cs ∧ byteLength before = offset := by
  rw [OccursAt, slice?_eq_some_iff]
  simp only [and_true]

theorem isInfix_iff_occursAt : needle <:+: cs ↔ ∃ offset, OccursAt needle cs offset := by
  simp only [occursAt_iff]
  constructor
  · rintro ⟨before, after, h⟩
    exact ⟨_, before, after, h, rfl⟩
  · rintro ⟨_, before, after, h, -⟩
    exact ⟨before, after, h⟩

theorem occursAt_zero_iff : OccursAt needle cs 0 ↔ needle <+: cs := by
  rw [occursAt_iff]
  constructor
  · rintro ⟨before, after, h, hbefore⟩
    rw [byteLength_eq_zero_iff.mp hbefore, List.nil_append] at h
    exact ⟨after, h⟩
  · rintro ⟨after, h⟩
    exact ⟨[], after, h, rfl⟩

theorem occursAt_nil_iff : OccursAt needle [] offset ↔ needle = [] ∧ offset = 0 := by
  rw [occursAt_iff]
  constructor
  · rintro ⟨before, after, h, rfl⟩
    obtain ⟨rfl, rfl, -⟩ : before = [] ∧ needle = [] ∧ after = [] := by simpa using h
    exact ⟨rfl, rfl⟩
  · rintro ⟨rfl, rfl⟩
    exact ⟨[], [], rfl, rfl⟩

/-- A text stands at the start of another one, or behind its first character. -/
theorem occursAt_cons_iff {c : Char} :
    OccursAt needle (c :: cs) offset ↔
      offset = 0 ∧ needle <+: c :: cs ∨
        ∃ rest, OccursAt needle cs rest ∧ offset = c.utf8Size + rest := by
  constructor
  · intro h
    obtain ⟨before, after, heq, hlength⟩ := occursAt_iff.mp h
    cases before with
    | nil => exact .inl ⟨hlength.symm, after, heq⟩
    | cons d before =>
      obtain ⟨rfl, htail⟩ := List.cons.inj heq
      exact .inr ⟨_, occursAt_iff.mpr ⟨before, after, htail, rfl⟩, hlength.symm⟩
  · rintro (⟨rfl, hprefix⟩ | ⟨rest, hrest, rfl⟩)
    · exact occursAt_zero_iff.mpr hprefix
    · obtain ⟨before, after, rfl, rfl⟩ := occursAt_iff.mp hrest
      exact occursAt_iff.mpr ⟨c :: before, after, rfl, rfl⟩

/-- A search answers with the first occurrence. -/
theorem find?_eq_some_iff :
    find? needle cs = some offset ↔
      OccursAt needle cs offset ∧ ∀ other, OccursAt needle cs other → offset ≤ other := by
  induction cs generalizing offset with
  | nil =>
    have hnil : find? needle [] = some offset ↔ needle = [] ∧ offset = 0 := by
      simp [find?, eq_comm]
    rw [hnil]
    simp only [occursAt_nil_iff]
    constructor
    · rintro ⟨hneedle, rfl⟩
      exact ⟨⟨hneedle, rfl⟩, fun _ _ => Nat.zero_le _⟩
    · rintro ⟨h, -⟩
      exact h
  | cons c cs ih =>
    rw [find?]
    split
    · rename_i hprefix
      have hstart : OccursAt needle (c :: cs) 0 :=
        occursAt_zero_iff.mpr (List.isPrefixOf_iff_prefix.mp hprefix)
      constructor
      · intro h
        obtain rfl := Option.some.inj h
        exact ⟨hstart, fun _ _ => Nat.zero_le _⟩
      · rintro ⟨-, hleast⟩
        rw [Nat.le_zero.mp (hleast 0 hstart)]
    · rename_i hprefix
      rw [List.isPrefixOf_iff_prefix] at hprefix
      simp only [occursAt_cons_iff, hprefix, and_false, false_or, Option.map_eq_some_iff,
        ih]
      constructor
      · rintro ⟨rest, ⟨hrest, hleast⟩, rfl⟩
        refine ⟨⟨rest, hrest, rfl⟩, ?_⟩
        rintro _ ⟨other, hother, rfl⟩
        exact Nat.add_le_add_left (hleast other hother) _
      · rintro ⟨⟨rest, hrest, rfl⟩, hleast⟩
        refine ⟨rest, ⟨hrest, ?_⟩, rfl⟩
        intro other hother
        exact Nat.le_of_add_le_add_left (hleast _ ⟨other, hother, rfl⟩)

end Text

namespace Excerpt

open Text (OccursAt)

/-! ## Behind the first character -/

/-- The offset behind the first character of markup. -/
def pastFirst (cs : List Char) : Nat :=
  Text.byteLength (cs.take 1)

variable {needle cs : List Char} {left : Nat}

theorem pastFirst_cons (c : Char) (cs : List Char) :
    pastFirst (c :: cs) = c.utf8Size := rfl

/-- The search passes over the first character, and looks at the start if it finds
nothing. -/
theorem find?_eq_scan (needle cs : List Char) :
    ∃ rest, Text.slice? cs (pastFirst cs) (Text.byteLength cs) = some rest ∧
      find? needle cs = ((Text.find? needle rest).map (pastFirst cs + ·)).or
        (if needle.isPrefixOf cs then some 0 else none) := by
  cases cs with
  | nil =>
    refine ⟨[], rfl, ?_⟩
    by_cases hneedle : needle = []
    · subst hneedle
      rfl
    · simp [find?, Text.find?, hneedle]
  | cons c cs => exact ⟨cs, Text.slice?_tail c cs, rfl⟩

/-- The occurrences behind the first character are those in the rest. -/
theorem occursAt_behind_iff {c : Char} {offset : Nat} :
    OccursAt needle (c :: cs) offset ∧ c.utf8Size ≤ offset ↔
      ∃ rest, OccursAt needle cs rest ∧ offset = c.utf8Size + rest := by
  have hpos := c.utf8Size_pos
  rw [Text.occursAt_cons_iff]
  constructor
  · rintro ⟨⟨rfl, -⟩ | h, hle⟩
    · omega
    · exact h
  · rintro ⟨rest, hrest, rfl⟩
    exact ⟨.inr ⟨rest, hrest, rfl⟩, Nat.le_add_right _ _⟩

theorem later_eq_some_iff {c : Char} :
    (Text.find? needle cs).map (c.utf8Size + ·) = some left ↔
      c.utf8Size ≤ left ∧ OccursAt needle (c :: cs) left ∧
        ∀ other, OccursAt needle (c :: cs) other → c.utf8Size ≤ other → left ≤ other := by
  simp only [Option.map_eq_some_iff, Text.find?_eq_some_iff]
  constructor
  · rintro ⟨rest, ⟨hrest, hleast⟩, rfl⟩
    obtain ⟨hoccurs, hle⟩ := occursAt_behind_iff.mpr ⟨rest, hrest, rfl⟩
    refine ⟨hle, hoccurs, ?_⟩
    intro other hother hbehind
    obtain ⟨rest', hrest', rfl⟩ := occursAt_behind_iff.mp ⟨hother, hbehind⟩
    exact Nat.add_le_add_left (hleast rest' hrest') _
  · rintro ⟨hle, hoccurs, hleast⟩
    obtain ⟨rest, hrest, rfl⟩ := occursAt_behind_iff.mp ⟨hoccurs, hle⟩
    refine ⟨rest, ⟨hrest, ?_⟩, rfl⟩
    intro rest' hrest'
    obtain ⟨hoccurs', hle'⟩ := occursAt_behind_iff.mpr ⟨rest', hrest', rfl⟩
    exact Nat.le_of_add_le_add_left (hleast _ hoccurs' hle')

theorem later_eq_none_iff {c : Char} :
    (Text.find? needle cs).map (c.utf8Size + ·) = none ↔
      ∀ other, OccursAt needle (c :: cs) other → other = 0 := by
  rw [Option.map_eq_none_iff, Text.find?_eq_none_iff, Text.isInfix_iff_occursAt]
  constructor
  · intro hnone other hother
    rcases Text.occursAt_cons_iff.mp hother with ⟨h, -⟩ | ⟨rest, hrest, -⟩
    · exact h
    · exact absurd ⟨rest, hrest⟩ hnone
  · rintro hstart ⟨rest, hrest⟩
    have hpos := c.utf8Size_pos
    have hzero := hstart _ (occursAt_behind_iff.mpr ⟨rest, hrest, rfl⟩).1
    omega

/-- It answers with the first occurrence that starts behind the first character, or with
the one at the start if there is no other. -/
theorem find?_eq_some_iff :
    find? needle cs = some left ↔
      (pastFirst cs ≤ left ∧ OccursAt needle cs left ∧
        ∀ other, OccursAt needle cs other → pastFirst cs ≤ other → left ≤ other) ∨
      left = 0 ∧ OccursAt needle cs 0 ∧
        ∀ other, OccursAt needle cs other → other = 0 := by
  cases cs with
  | nil =>
    have hnil : find? needle [] = some left ↔ OccursAt needle [] left := by
      rw [find?, Text.find?_eq_some_iff, and_iff_left_iff_imp]
      intro h other hother
      rw [(Text.occursAt_nil_iff.mp h).2]
      exact Nat.zero_le _
    rw [hnil]
    constructor
    · intro h
      obtain ⟨-, rfl⟩ := Text.occursAt_nil_iff.mp h
      exact .inl ⟨Nat.zero_le _, h, fun _ _ _ => Nat.zero_le _⟩
    · rintro (⟨-, h, -⟩ | ⟨rfl, h, -⟩) <;> exact h
  | cons c cs =>
    have hstart : (if needle.isPrefixOf (c :: cs) then some 0 else none) = some left ↔
        left = 0 ∧ OccursAt needle (c :: cs) 0 := by
      rw [Text.occursAt_zero_iff, ← List.isPrefixOf_iff_prefix]
      by_cases hstarts : needle.isPrefixOf (c :: cs) = true <;> simp [hstarts, eq_comm]
    rw [find?, pastFirst_cons, Option.or_eq_some_iff, later_eq_some_iff,
      later_eq_none_iff, hstart]
    refine or_congr_right ?_
    rw [and_comm, and_assoc]

/-! ## Emission from a container -/

/-- What becomes of a payload in a container that has `needle` in its place. -/
structure Placed (container : Node) (needle text : String) : Prop where
  /-- The search starts at a cut of the markup. -/
  scan : ∃ rest, Text.slice? container.raw.toList (pastFirst container.raw.toList)
      container.raw.utf8ByteSize = some rest ∧
    find? needle.toList container.raw.toList =
      ((Text.find? needle.toList rest).map (pastFirst container.raw.toList + ·)).or
        (if needle.toList.isPrefixOf container.raw.toList then some 0 else none)
  /-- It fails only on what is not in the markup. -/
  missing_iff : find? needle.toList container.raw.toList = none ↔
    ∀ left, ¬ OccursAt needle.toList container.raw.toList left
  /-- It stops at the first occurrence behind the first character, or at the start if the
  only one is there. -/
  found_iff : ∀ left, find? needle.toList container.raw.toList = some left ↔
    (pastFirst container.raw.toList ≤ left ∧
      OccursAt needle.toList container.raw.toList left ∧
      ∀ other, OccursAt needle.toList container.raw.toList other →
        pastFirst container.raw.toList ≤ other → left ≤ other) ∨
    left = 0 ∧ OccursAt needle.toList container.raw.toList 0 ∧
      ∀ other, OccursAt needle.toList container.raw.toList other → other = 0
  /-- The markup is long enough for what is on the left of the occurrence, and for
  itself. -/
  padding : ∀ left, find? needle.toList container.raw.toList = some left →
    left + needle.utf8ByteSize ≤ container.raw.utf8ByteSize
  /-- What is emitted starts at the occurrence, lies in the span of the container, and is
  longer or shorter than what was looked for by as much as that span is than the
  markup. -/
  emitted : ∀ excerpt, Step.emit excerpt ∈ Trail.padded container needle text →
    excerpt.markup = container.range ∧ excerpt.text = text ∧
    ∃ left, find? needle.toList container.raw.toList = some left ∧
      excerpt.content.start = excerpt.markup.start + left ∧
      excerpt.content.start ≤ excerpt.content.stop ∧
      excerpt.content.stop ≤ excerpt.markup.stop ∧
      OccursAt needle.toList container.raw.toList left ∧
      excerpt.content.length + container.raw.utf8ByteSize =
        excerpt.markup.length + needle.utf8ByteSize
  /-- An occurrence is left out exactly if the markup around it is longer than the
  span. -/
  silent_iff : ∀ left, find? needle.toList container.raw.toList = some left →
    ((∀ excerpt, Step.emit excerpt ∉ Trail.padded container needle text) ↔
      container.range.stop < container.range.start + left +
        (container.raw.utf8ByteSize - (left + needle.utf8ByteSize)))

theorem emit_mem_padded_iff {container : Node} {needle text : String}
    {excerpt : Excerpt} :
    Step.emit excerpt ∈ Trail.padded container needle text ↔
      ∃ content, locate container needle = .ok content ∧
        excerpt = ⟨.padded, container.range, content, text⟩ := by
  simp [Trail.mem_padded_iff]

/-- A text that was found is left out exactly if its start and the markup around it leave
no room for an end inside the span. -/
theorem forall_emit_not_mem_padded_iff {container : Node} {needle text : String}
    {left : Nat} (h : find? needle.toList container.raw.toList = some left) :
    (∀ excerpt, Step.emit excerpt ∉ Trail.padded container needle text) ↔
      container.range.stop < container.range.start + left +
        (container.raw.utf8ByteSize - (left + needle.utf8ByteSize)) := by
  have hin := left_le_of_find? h
  constructor
  · intro hsilent
    by_contra hroom
    obtain ⟨right, hright⟩ := Nat.exists_eq_add_of_le hin
    have hlocate : locate container needle =
        .ok ⟨container.range.start + left, container.range.stop - right⟩ := by
      refine locate_eq_ok_iff.mpr ⟨left, h, rfl, ?_, ?_⟩
      · dsimp only
        omega
      · dsimp only
        omega
    exact hsilent _ (emit_mem_padded_iff.mpr ⟨_, hlocate, rfl⟩)
  · intro hnone excerpt hemit
    obtain ⟨content, hlocate, -⟩ := emit_mem_padded_iff.mp hemit
    obtain ⟨left', hleft, hstart, hle, hstop⟩ := locate_eq_ok_iff.mp hlocate
    obtain rfl := Option.some.inj (h.symm.trans hleft)
    omega

theorem occursAt_of_find? {needle cs : List Char} {left : Nat}
    (h : find? needle cs = some left) :
    OccursAt needle cs left :=
  Excerpt.slice?_of_find? h

/-- The container places the payload, however long its markup and whichever way round its
span. -/
theorem placed_in_container (container : Node) (needle text : String) :
    Placed container needle text where
  scan := by
    rw [← Text.byteLength_toList]
    exact find?_eq_scan _ _
  missing_iff := by
    rw [find?_eq_none_iff, Text.isInfix_iff_occursAt, not_exists]
  found_iff := fun _ => find?_eq_some_iff
  padding := fun _ => left_le_of_find?
  emitted := by
    intro excerpt h
    obtain ⟨content, hlocate, rfl⟩ := emit_mem_padded_iff.mp h
    obtain ⟨left, hleft, hstart, hle, hstop⟩ := locate_eq_ok_iff.mp hlocate
    have hin := left_le_of_find? hleft
    refine ⟨rfl, rfl, left, hleft, hstart, hle, ?_, occursAt_of_find? hleft, ?_⟩
    · dsimp only
      omega
    · simp only [Span.length]
      omega
  silent_iff := fun _ => forall_emit_not_mem_padded_iff

/-- The mark that opens an image is not taken for its text, but text without any markup is
found. -/
example : find? ['!'] "![!](u)".toList = some 2 ∧ find? ['!'] ['!'] = some 0 ∧
    find? ['é', 'a'] "éaéa".toList = some 3 := by
  decide

end Excerpt

end ProseMap
