import ProseMap.Proofs.Coordinates

/-!
# Alignment

The offsets at which a text can be cut and the positions that lie in it are the same
places, told in two ways: its line breaks take each to the other and back, and what comes
first comes first both ways. -/

namespace ProseMap

/-! ## The order of positions -/

namespace Position

theorem before_trans {p q r : Position} (hpq : p.before q) (hqr : q.before r) :
    p.before r := by
  rw [before] at *
  omega

theorem not_before_self (p : Position) : ¬ p.before p := by
  rw [before]
  omega

theorem before_next (position : Position) (c : Char) :
    position.before (position.next c) := by
  rw [next]
  split
  · exact .inl (Nat.lt_succ_self _)
  · exact .inr ⟨rfl, Nat.lt_succ_self _⟩

/-- Whatever characters a text goes on with, they lead to a later position. -/
theorem before_foldl_next (position : Position) {cs : List Char} (h : cs ≠ []) :
    position.before (cs.foldl next position) := by
  induction cs generalizing position with
  | nil => exact absurd rfl h
  | cons c cs ih =>
    rw [List.foldl_cons]
    by_cases hnil : cs = []
    · subst hnil
      exact before_next position c
    · exact before_trans (before_next position c) (ih _ hnil)

/-- Of two prefixes of a text the one with fewer bytes has the earlier position behind
it. -/
theorem before_behind {cs upto longer : List Char} (hupto : upto <+: cs)
    (hlonger : longer <+: cs) (h : Text.byteLength upto < Text.byteLength longer) :
    (behind upto).before (behind longer) := by
  obtain ⟨more, rfl⟩ := Text.prefix_of_byteLength_le hupto hlonger (Nat.le_of_lt h)
  have hmore : more ≠ [] := by
    rintro rfl
    rw [List.append_nil] at h
    exact Nat.lt_irrefl _ h
  have hbehind : behind (upto ++ more) = more.foldl next (behind upto) :=
    List.foldl_append
  rw [hbehind]
  exact before_foldl_next _ hmore

end Position

namespace LineBreaks

/-! ## Offsets and positions -/

/-- Line breaks that match the cuts of a text with the positions in it, one to one and in
order. -/
structure Aligns (index : LineBreaks) (text : String) : Prop where
  /-- The offsets that have a position are those at which the text can be cut. -/
  cut_iff : ∀ offset, Text.IsBoundary text.toList offset ↔
    ∃ position, index.position? text offset = some position
  /-- The start of the text is one of them. -/
  first : index.position? text 0 = some ⟨1, 0⟩
  /-- So is its end. -/
  last : ∃ position, index.position? text text.utf8ByteSize = some position
  /-- The positions that have an offset are those that lie in the text. -/
  place_iff : ∀ position, position.LiesIn text.toList ↔
    ∃ offset, index.offset? text position = some offset
  /-- The way from an offset to its position and the way back are inverse to each
  other. -/
  inverse : ∀ offset position, index.position? text offset = some position ↔
    index.offset? text position = some offset
  /-- Offsets are in the order of their positions. -/
  before_iff : ∀ offset other position place,
    index.position? text offset = some position →
    index.position? text other = some place → (offset < other ↔ position.before place)

variable {text : String} {offset other : Nat} {position place : Position}

theorem position?_eq_some_iff_offset? :
    (ofText text).position? text offset = some position ↔
      (ofText text).offset? text position = some offset :=
  position?_eq_some_iff.trans offset?_eq_some_iff.symm

theorem before_of_lt (hposition : (ofText text).position? text offset = some position)
    (hplace : (ofText text).position? text other = some place) (h : offset < other) :
    position.before place := by
  obtain ⟨upto, hupto, rfl, rfl⟩ := position?_eq_some_iff.mp hposition
  obtain ⟨longer, hlonger, rfl, rfl⟩ := position?_eq_some_iff.mp hplace
  exact Position.before_behind hupto hlonger h

theorem lt_iff_before (hposition : (ofText text).position? text offset = some position)
    (hplace : (ofText text).position? text other = some place) :
    offset < other ↔ position.before place := by
  constructor
  · exact before_of_lt hposition hplace
  · intro hbefore
    rcases Nat.lt_trichotomy offset other with h | rfl | h
    · exact h
    · obtain rfl := Option.some.inj (hposition.symm.trans hplace)
      exact absurd hbefore (Position.not_before_self _)
    · -- a place that comes later cannot come before as well
      have hlater := before_of_lt hplace hposition h
      exact absurd (Position.before_trans hbefore hlater) (Position.not_before_self _)

/-- The line breaks of a text match its cuts with its positions. -/
theorem aligns_ofText (text : String) : (ofText text).Aligns text where
  cut_iff := fun _ => exists_position_iff.symm
  first := position?_upto List.nil_prefix
  last := by
    rw [exists_position_iff, ← Text.byteLength_toList]
    exact ⟨text.toList, List.prefix_rfl, rfl⟩
  place_iff := fun _ => exists_offset_iff.symm
  inverse := fun _ _ => position?_eq_some_iff_offset?
  before_iff := fun _ _ _ _ => lt_iff_before

/-- A line feed belongs to the line that it ends, and it has a column like the end of a
text. -/
example : (ofText "é\n\nb").position? "é\n\nb" 2 = some ⟨1, 1⟩ ∧
    (ofText "é\n\nb").offset? "é\n\nb" ⟨2, 0⟩ = some 3 ∧
    (ofText "é\n\nb").position? "é\n\nb" 5 = some ⟨3, 1⟩ := by
  decide

end LineBreaks

end ProseMap
