import Mathlib.Data.List.DropRight
import ProseMap.Proofs.Lines

/-!
# Coordinates

What the line breaks of a text compute, said as a plain scan of it: the line of an offset
counts the line feeds before it, the column counts the characters behind the last of them,
and the way back is to pass over whole lines and then over characters of one line. -/

namespace ProseMap

namespace Text

/-! ## Passing over lines -/

/-- The first lines of a text with their line feeds. -/
def linesAbove (cs : List Char) (count : Nat) : List Char :=
  ((lines cs).take count).flatMap (· ++ ['\n'])

/-- The lines of a text, each with a line feed, are the text with one more line feed. -/
theorem flatMap_lines (cs : List Char) :
    (lines cs).flatMap (· ++ ['\n']) = cs ++ ['\n'] := by
  induction cs with
  | nil => rfl
  | cons c cs ih =>
    by_cases hc : c = '\n'
    · simp [lines, hc, ih]
    · obtain ⟨line, more, hlines⟩ := List.exists_cons_of_ne_nil (lines_ne_nil cs)
      rw [hlines] at ih
      simp only [lines, if_neg hc, hlines, List.modifyHead_cons, List.flatMap_cons,
        List.cons_append] at ih ⊢
      rw [ih]

/-- Before a row of a text stand the lines above it. -/
theorem Row.linesAbove_eq {cs lead line rest : List Char} {row : Nat}
    (h : Row cs row lead line rest) : linesAbove cs row = lead := by
  rw [linesAbove, ← h.append_eq, ← h.count_eq]
  rcases h.whole with rfl | ⟨above, rfl⟩
  · rfl
  · have hlength : (lines above).length = (above ++ ['\n']).count '\n' := by
      rw [length_lines, List.count_append]
      rfl
    rw [List.append_assoc, List.singleton_append, lines_append_break, ← hlength,
      List.take_left, flatMap_lines]

end Text

/-- The column of the position behind a text counts the characters behind its last line
feed. -/
theorem Position.column_behind (cs : List Char) :
    (behind cs).column = (cs.rtakeWhile (· ≠ '\n')).length := by
  induction cs using List.reverseRecOn with
  | nil => rfl
  | append_singleton cs c ih =>
    have hnext : behind (cs ++ [c]) = (behind cs).next c := by simp [behind]
    rw [hnext, next, List.rtakeWhile_concat]
    by_cases hc : c = '\n'
    · simp [hc]
    · simp [hc, ih]

namespace LineBreaks

/-! ## The scan -/

/-- Line breaks that convert the offsets and the positions of a text as a scan of it
does. -/
structure Scans (index : LineBreaks) (text : String) : Prop where
  /-- The offsets that have a position are those at which the text can be cut. -/
  exists_position_iff : ∀ offset,
    (∃ position, index.position? text offset = some position) ↔
      offset ≤ text.utf8ByteSize ∧ Text.IsBoundary text.toList offset
  /-- The line is one more than the line feeds before the offset, and the column is the
  number of characters behind the last of them. -/
  position_eq : ∀ offset position, index.position? text offset = some position →
    ∃ upto, Text.slice? text.toList 0 offset = some upto ∧
      position.line = 1 + upto.count '\n' ∧
      position.column = (upto.rtakeWhile (· ≠ '\n')).length
  /-- The positions that have an offset are those of a line that the text has and that is
  not shorter than the column. -/
  exists_offset_iff : ∀ position, (∃ offset, index.offset? text position = some offset) ↔
    1 ≤ position.line ∧ position.line ≤ text.toList.count '\n' + 1 ∧
      ∃ line ∈ (Text.lines text.toList)[position.line - 1]?, position.column ≤ line.length
  /-- The offset is reached behind the lines above, and as many characters of the line as
  the column says. -/
  offset_eq : ∀ position offset, index.offset? text position = some offset →
    ∃ line ∈ (Text.lines text.toList)[position.line - 1]?,
      offset = Text.byteLength (Text.linesAbove text.toList (position.line - 1)) +
        Text.byteLength (line.take position.column)

variable {text : String} {offset : Nat} {position : Position}

theorem exists_position_iff :
    (∃ position, (ofText text).position? text offset = some position) ↔
      Text.IsBoundary text.toList offset := by
  simp only [position?_eq_some_iff]
  constructor
  · rintro ⟨_, upto, hupto, hlength, -⟩
    exact ⟨upto, hupto, hlength⟩
  · rintro ⟨upto, hupto, hlength⟩
    exact ⟨_, upto, hupto, hlength, rfl⟩

theorem exists_offset_iff :
    (∃ offset, (ofText text).offset? text position = some offset) ↔
      position.LiesIn text.toList := by
  simp only [offset?_eq_some_iff, Position.liesIn_iff]
  constructor
  · rintro ⟨_, upto, hupto, -, hposition⟩
    exact ⟨upto, hupto, hposition⟩
  · rintro ⟨upto, hupto, hposition⟩
    exact ⟨_, upto, hupto, rfl, hposition⟩

/-- The line breaks of a text scan it. -/
theorem scans_ofText (text : String) : (ofText text).Scans text := by
  refine ⟨?_, ?_, ?_, ?_⟩
  · intro offset
    rw [exists_position_iff, ← Text.byteLength_toList]
    exact ⟨fun hcut => ⟨Text.le_of_isBoundary hcut, hcut⟩, And.right⟩
  · intro offset position h
    obtain ⟨upto, ⟨rest, hrest⟩, hlength, rfl⟩ := position?_eq_some_iff.mp h
    refine ⟨upto, ?_, ?_, Position.column_behind upto⟩
    · exact Text.slice?_eq_some_iff.mpr ⟨[], rest, hrest, rfl, by omega⟩
    · rw [Position.line_behind, Nat.add_comm]
  · intro position
    rw [exists_offset_iff, Position.LiesIn]
    constructor
    · rintro ⟨hline, line, hmem, hcolumn⟩
      have hlt := (List.getElem?_eq_some_iff.mp hmem).1
      rw [Text.length_lines] at hlt
      exact ⟨by omega, by omega, line, hmem, hcolumn⟩
    · rintro ⟨hline, -, line, hmem, hcolumn⟩
      exact ⟨by omega, line, hmem, hcolumn⟩
  · intro position offset h
    obtain ⟨hline, line, hmem, hcolumn⟩ := exists_offset_iff.mp ⟨offset, h⟩
    have hlt := (List.getElem?_eq_some_iff.mp hmem).1
    rw [Text.length_lines] at hlt
    obtain ⟨lead, line', rest, hrow⟩ := Text.exists_row (Nat.le_of_lt_succ hlt)
    obtain rfl := Option.some.inj (hmem.symm.trans hrow.getElem?_lines)
    -- what the scan has passed over is a prefix of the text, behind which is the position
    have hreached : (ofText text).offset? text position =
        some (Text.byteLength (lead ++ line.take position.column)) :=
      offset?_eq_some_iff.mpr
        ⟨_, hrow.isPrefix_append_take _, rfl, hrow.behind_take hline hcolumn⟩
    refine ⟨line, hmem, ?_⟩
    rw [hrow.linesAbove_eq, ← Text.byteLength_append]
    exact Option.some.inj (h.symm.trans hreached)

end LineBreaks

end ProseMap
