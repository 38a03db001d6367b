import ProseMap.Proofs.Lines

/-!
# Other texts

Line breaks may be asked about a text that they were not taken from. They still know the
rows of their own text only, and count the characters that the other one has there. What
is not a slice of the other text has no answer, and where both ways have one they are
inverse to each other (`offset?_eq_some_iff_fitsIn`). -/

namespace ProseMap

/-! ## Slices that a text has -/

/-- Whether a span lies in a text, which can be cut at both ends of it. -/
def Span.FitsIn (span : Span) (text : String) : Prop :=
  span.start ≤ span.stop ∧ span.stop ≤ text.utf8ByteSize ∧
    Text.IsBoundary text.toList span.start ∧ Text.IsBoundary text.toList span.stop

instance (span : Span) (text : String) : Decidable (span.FitsIn text) :=
  inferInstanceAs (Decidable (_ ∧ _))

/-- The spans that fit are those that can be cut out. -/
theorem Span.fitsIn_iff {span : Span} {text : String} :
    span.FitsIn text ↔
      ∃ part, Text.slice? text.toList span.start span.stop = some part := by
  constructor
  · rintro ⟨hle, -, hstart, hstop⟩
    exact Text.exists_slice? hstart hstop hle
  · rintro ⟨part, hslice⟩
    obtain ⟨before, after, heq, hstart, hstop⟩ := Text.slice?_eq_some_iff.mp hslice
    have hcut : Text.IsBoundary text.toList span.stop :=
      ⟨before ++ part, ⟨after, heq⟩, by rw [Text.byteLength_append, hstart, hstop]⟩
    refine ⟨by omega, ?_, ⟨before, ⟨part ++ after, ?_⟩, hstart⟩, hcut⟩
    · rw [← Text.byteLength_toList]
      exact Text.le_of_isBoundary hcut
    · rw [← List.append_assoc, heq]

namespace LineBreaks

/-! ## The slices that are taken -/

/-- The span that is cut out to count the column of an offset: its row as far as the
offset. -/
def columnSpan? (index : LineBreaks) (offset : Nat) : Option Span := do
  guard (offset ≤ index.length)
  let start ← index.rowStart? (bisect (· < offset) index.breaks)
  return ⟨start, offset⟩

/-- The span that is cut out to count off columns: the line without its line feed. -/
def lineSpan? (index : LineBreaks) (line : Nat) : Option Span := do
  guard (line ≠ 0)
  let start ← index.rowStart? (line - 1)
  return ⟨start, index.rowStop (line - 1)⟩

/-- A position is all counted in one slice. -/
theorem position?_eq_columnSpan? (index : LineBreaks) (content : String) (offset : Nat) :
    index.position? content offset = do
      let span ← index.columnSpan? offset
      let before ← Text.slice? content.toList span.start span.stop
      return ⟨bisect (· < offset) index.breaks + 1, before.length⟩ := by
  simp [position?, columnSpan?, Option.bind_assoc]

/-- So is the way back. -/
theorem offset?_eq_lineSpan? (index : LineBreaks) (content : String)
    (position : Position) :
    index.offset? content position = do
      let span ← index.lineSpan? position.line
      let line ← Text.slice? content.toList span.start span.stop
      guard (position.column ≤ line.length)
      return span.start + Text.byteLength (line.take position.column) := by
  simp [offset?, lineSpan?, Option.bind_assoc]

variable {text other : String} {row offset : Nat} {lead line rest : List Char}
  {position : Position} {span : Span}

theorem columnSpan?_of_row (h : Text.Row text.toList row lead line rest)
    (hstart : Text.byteLength lead ≤ offset)
    (hstop : offset ≤ Text.byteLength lead + Text.byteLength line) :
    (ofText text).columnSpan? offset = some ⟨Text.byteLength lead, offset⟩ := by
  have hle : offset ≤ (ofText text).length := Nat.le_trans hstop (le_length_of_row h)
  simp [columnSpan?, guard, hle, bisect_breaks_of_row h hstart hstop, rowStart?_of_row h]

theorem lineSpan?_of_row (h : Text.Row text.toList row lead line rest) :
    (ofText text).lineSpan? (row + 1) =
      some ⟨Text.byteLength lead, Text.byteLength lead + Text.byteLength line⟩ := by
  simp [lineSpan?, guard, rowStart?_of_row h, rowStop_of_row h]

/-- The slice for an offset stops there, and it lies in the text of the line breaks. -/
theorem bounds_of_mem_columnSpan? (h : span ∈ (ofText text).columnSpan? offset) :
    span.start ≤ span.stop ∧ span.stop = offset ∧ offset ≤ text.utf8ByteSize := by
  have hle : offset ≤ text.utf8ByteSize := by
    simp only [columnSpan?, Option.bind_eq_bind, Option.mem_def, Option.bind_eq_some_iff,
      Option.guard_eq_some'] at h
    obtain ⟨-, hle, -⟩ := h
    exact hle
  rw [← Text.byteLength_toList] at hle
  obtain ⟨row, lead, line, rest, hrow, hstart, hstop⟩ := Text.exists_row_around hle
  obtain rfl := Option.some.inj ((columnSpan?_of_row hrow hstart hstop).symm.trans h)
  rw [Text.byteLength_toList] at hle
  exact ⟨hstart, rfl, hle⟩

/-- So does the slice of a line. -/
theorem bounds_of_mem_lineSpan? {line : Nat} (h : span ∈ (ofText text).lineSpan? line) :
    span.start ≤ span.stop ∧ span.stop ≤ text.utf8ByteSize := by
  simp only [lineSpan?, Option.pure_def, Option.bind_eq_bind, Option.mem_def,
    Option.bind_eq_some_iff, Option.guard_eq_some', Option.some.injEq] at h
  obtain ⟨-, -, start, hstart, rfl⟩ := h
  obtain ⟨lead, line', rest, hrow⟩ := exists_row_of_rowStart? hstart
  obtain rfl := Option.some.inj (hstart.symm.trans (rowStart?_of_row hrow))
  rw [rowStop_of_row hrow]
  exact ⟨Nat.le_add_right _ _, le_length_of_row hrow⟩

/-! ## What is answered -/

/-- An offset has a position exactly if the given text has its slice. -/
theorem exists_position_iff_fitsIn :
    (∃ position, (ofText text).position? other offset = some position) ↔
      ∃ span ∈ (ofText text).columnSpan? offset, span.FitsIn other := by
  simp only [position?_eq_columnSpan?, Span.fitsIn_iff, Option.pure_def,
    Option.bind_eq_bind, Option.bind_eq_some_iff, Option.some.injEq, Option.mem_def]
  constructor
  · rintro ⟨_, span, hspan, before, hslice, -⟩
    exact ⟨span, hspan, before, hslice⟩
  · rintro ⟨span, hspan, before, hslice⟩
    exact ⟨_, span, hspan, before, hslice, rfl⟩

/-- A position has an offset exactly if the given text has the slice of its line, and that
is not shorter than the column. -/
theorem exists_offset_iff_fitsIn :
    (∃ offset, (ofText text).offset? other position = some offset) ↔
      ∃ span ∈ (ofText text).lineSpan? position.line, span.FitsIn other ∧
        ∃ line ∈ Text.slice? other.toList span.start span.stop,
          position.column ≤ line.length := by
  simp only [offset?_eq_lineSpan?, Span.fitsIn_iff, Option.pure_def, Option.bind_eq_bind,
    Option.bind_eq_some_iff, Option.guard_eq_some', Option.some.injEq, Option.mem_def]
  constructor
  · rintro ⟨_, span, hspan, line, hslice, -, hcolumn, -⟩
    exact ⟨span, hspan, ⟨line, hslice⟩, line, hslice, hcolumn⟩
  · rintro ⟨span, hspan, -, line, hslice, hcolumn⟩
    exact ⟨_, span, hspan, line, hslice, (), hcolumn, rfl⟩

/-- An offset is that of a position exactly if the position is that of the offset and the
given text has the slice of the whole line. -/
theorem offset?_eq_some_iff_fitsIn :
    (ofText text).offset? other position = some offset ↔
      (ofText text).position? other offset = some position ∧
        ∃ span ∈ (ofText text).lineSpan? position.line, span.FitsIn other := by
  constructor
  · intro h
    obtain ⟨hline, lead, line, rest, part, hrow, hslice, hcolumn, rfl⟩ :=
      offset?_iff_row.mp h
    have hnumber : position.line - 1 + 1 = position.line :=
      Nat.sub_add_cancel (Nat.pos_of_ne_zero hline)
    have hstop : Text.byteLength lead + Text.byteLength (part.take position.column) ≤
        Text.byteLength lead + Text.byteLength line := by
      rw [← Nat.add_left_cancel (Text.length_of_slice? hslice)]
      exact Nat.add_le_add_left (Text.le_of_isBoundary ⟨_, List.take_prefix _ _, rfl⟩) _
    constructor
    · rw [position?_of_row hrow (Nat.le_add_right _ _) hstop, Text.slice?_take hslice,
        Option.map_some, List.length_take_of_le hcolumn, hnumber]
    · rw [← hnumber]
      exact ⟨_, lineSpan?_of_row hrow, Span.fitsIn_iff.mpr ⟨part, hslice⟩⟩
  · rintro ⟨hposition, span, hspan, hfits⟩
    obtain ⟨_, hcolumn, -⟩ := exists_position_iff_fitsIn.mp ⟨position, hposition⟩
    obtain ⟨-, -, hle⟩ := bounds_of_mem_columnSpan? hcolumn
    rw [← Text.byteLength_toList] at hle
    obtain ⟨row, lead, line, rest, hrow, hstart, hstop⟩ := Text.exists_row_around hle
    rw [position?_of_row hrow hstart hstop] at hposition
    obtain ⟨before, hbefore, rfl⟩ := Option.map_eq_some_iff.mp hposition
    obtain rfl := Option.some.inj ((lineSpan?_of_row hrow).symm.trans hspan)
    obtain ⟨part, hpart⟩ := Span.fitsIn_iff.mp hfits
    have hprefix : before <+: part := Text.prefix_of_slice? hbefore hpart hstop
    refine offset?_iff_row.mpr
      ⟨Nat.succ_ne_zero _, lead, line, rest, part, hrow, hpart, hprefix.length_le, ?_⟩
    rw [← List.prefix_iff_eq_take.mp hprefix]
    exact Text.length_of_slice? hbefore

/-! ## Consistency -/

/-- Line breaks of one text that keep to the bounds of another text as well, and do not
contradict themselves about it. -/
structure Tolerates (index : LineBreaks) (text other : String) : Prop where
  /-- The offset of a position lies in both texts, the other text can be cut there, and
  what is there has this position. -/
  offset_placed : ∀ position offset, index.offset? other position = some offset →
    offset ≤ text.utf8ByteSize ∧ offset ≤ other.utf8ByteSize ∧
      Text.IsBoundary other.toList offset ∧ index.position? other offset = some position
  /-- The position of an offset has this offset, or none. -/
  position_back : ∀ offset position, index.position? other offset = some position →
    index.offset? other position = none ∨ index.offset? other position = some offset
  /-- It has this offset exactly if the other text has all of the line. -/
  offset_iff : ∀ offset position, index.offset? other position = some offset ↔
    index.position? other offset = some position ∧
      ∃ span ∈ index.lineSpan? position.line, span.FitsIn other
  /-- The slice that is taken for an offset has its ends in order and in the text of the
  line breaks. -/
  columnSpan_bounds : ∀ offset, ∀ span ∈ index.columnSpan? offset,
    span.start ≤ span.stop ∧ span.stop ≤ text.utf8ByteSize
  /-- So has the one that is taken for a position. -/
  lineSpan_bounds : ∀ line, ∀ span ∈ index.lineSpan? line,
    span.start ≤ span.stop ∧ span.stop ≤ text.utf8ByteSize
  /-- An offset whose slice is out of the bounds of the other text has no position; any
  other has one. -/
  exists_position_iff : ∀ offset,
    (∃ position, index.position? other offset = some position) ↔
      ∃ span ∈ index.columnSpan? offset, span.FitsIn other
  /-- A position whose line is out of these bounds has no offset either; any other has one
  unless the line is shorter there than the column. -/
  exists_offset_iff : ∀ position, (∃ offset, index.offset? other position = some offset) ↔
    ∃ span ∈ index.lineSpan? position.line, span.FitsIn other ∧
      ∃ line ∈ Text.slice? other.toList span.start span.stop,
        position.column ≤ line.length

/-- Line breaks tolerate every text. -/
theorem tolerates_ofText (text other : String) : (ofText text).Tolerates text other where
  offset_placed := by
    intro position offset h
    obtain ⟨hposition, -⟩ := offset?_eq_some_iff_fitsIn.mp h
    obtain ⟨span, hspan, -, hother, -, hcut⟩ :=
      exists_position_iff_fitsIn.mp ⟨position, hposition⟩
    obtain ⟨-, rfl, htext⟩ := bounds_of_mem_columnSpan? hspan
    exact ⟨htext, hother, hcut, hposition⟩
  position_back := by
    intro offset position h
    by_cases hfits : ∃ span ∈ (ofText text).lineSpan? position.line, span.FitsIn other
    · exact .inr (offset?_eq_some_iff_fitsIn.mpr ⟨h, hfits⟩)
    · refine .inl (Option.eq_none_iff_forall_ne_some.mpr fun place hplace => ?_)
      exact hfits (offset?_eq_some_iff_fitsIn.mp hplace).2
  offset_iff := fun _ _ => offset?_eq_some_iff_fitsIn
  columnSpan_bounds := by
    intro offset span h
    obtain ⟨horder, rfl, htext⟩ := bounds_of_mem_columnSpan? h
    exact ⟨horder, htext⟩
  lineSpan_bounds := fun _ _ => bounds_of_mem_lineSpan?
  exists_position_iff := fun _ => exists_position_iff_fitsIn
  exists_offset_iff := fun _ => exists_offset_iff_fitsIn

/-- A row that ends inside a character of the other text has columns, but none of them
leads back; a line feed of the other text alone is a column like any other. -/
example : (ofText "ab\nc").position? "aé\nc" 1 = some ⟨1, 1⟩ ∧
    (ofText "ab\nc").offset? "aé\nc" ⟨1, 1⟩ = none ∧
    (ofText "ab\nc").position? "aé\nc" 4 = some ⟨2, 1⟩ ∧
    (ofText "ab\nc").offset? "aé\nc" ⟨2, 1⟩ = some 4 := by
  decide

end LineBreaks

end ProseMap
