import Mathlib.Data.Option.Basic
import ProseMap.NumberedText
import ProseMap.Proofs.Slices

/-!
# Lines

The coordinates of a text, counted character by character (`Position.behind`) and read off
its lines (`Position.LiesIn`). Line breaks compute exactly these coordinates:
`position?_eq_some_iff` says so for the way from an offset to its position, and
`offset?_eq_some_iff` for the way back. -/

namespace ProseMap

/-! ## Counting -/

namespace Position

/-- The position behind one more character. -/
def next (position : Position) (c : Char) : Position :=
  if c = '\n' then ⟨position.line + 1, 0⟩ else ⟨position.line, position.column + 1⟩

/-- The position behind a text. -/
def behind (cs : List Char) : Position :=
  cs.foldl next ⟨1, 0⟩

theorem foldl_next_of_not_mem {cs : List Char} (h : '\n' ∉ cs) (position : Position) :
    cs.foldl next position = ⟨position.line, position.column + cs.length⟩ := by
  induction cs generalizing position with
  | nil => rfl
  | cons c cs ih =>
    have hc : c ≠ '\n' := Ne.symm (List.ne_of_not_mem_cons h)
    rw [List.foldl_cons, ih (List.not_mem_of_not_mem_cons h), next, if_neg hc,
      List.length_cons]
    simp only [mk.injEq, true_and]
    omega

/-- The line of the position behind a text is one more than the line feeds in it. -/
theorem line_behind (cs : List Char) : (behind cs).line = cs.count '\n' + 1 := by
  have of_foldl (position : Position) :
      (cs.foldl next position).line = position.line + cs.count '\n' := by
    induction cs generalizing position with
    | nil => rfl
    | cons c cs ih =>
      rw [List.foldl_cons, ih, next]
      by_cases hc : c = '\n'
      · simp [hc]
        omega
      · simp [hc]
  rw [behind, of_foldl, Nat.add_comm]

end Position

/-! ## Rows -/

namespace Text

/-- Text that is over with its last line: every line in it has its line feed. -/
def WholeLines (cs : List Char) : Prop :=
  cs = [] ∨ ∃ lines, cs = lines ++ ['\n']

/-- Text that does not go on with the line before it. -/
def StartsLine (cs : List Char) : Prop :=
  cs = [] ∨ ∃ lines, cs = '\n' :: lines

/-- One row of a text: the lines before it, its characters without the line feed, and the
rest. -/
structure Row (cs : List Char) (row : Nat) (lead line rest : List Char) : Prop where
  append_eq : lead ++ (line ++ rest) = cs
  count_eq : lead.count '\n' = row
  whole : WholeLines lead
  no_break : '\n' ∉ line
  ends : StartsLine rest

theorem WholeLines.cons {cs : List Char} (h : WholeLines cs) (hne : cs ≠ []) (c : Char) :
    WholeLines (c :: cs) := by
  rcases h with rfl | ⟨lines, rfl⟩
  · exact absurd rfl hne
  · exact .inr ⟨c :: lines, rfl⟩

/-- A text starts with a line. -/
theorem exists_first_line (cs : List Char) :
    ∃ line rest, line ++ rest = cs ∧ '\n' ∉ line ∧ StartsLine rest := by
  induction cs with
  | nil => exact ⟨[], [], rfl, List.not_mem_nil, .inl rfl⟩
  | cons c cs ih =>
    by_cases hc : c = '\n'
    · exact ⟨[], c :: cs, rfl, List.not_mem_nil, .inr ⟨cs, by rw [hc]⟩⟩
    · obtain ⟨line, rest, rfl, hline, hrest⟩ := ih
      exact ⟨c :: line, rest, rfl,
        List.not_mem_cons_of_ne_of_not_mem (Ne.symm hc) hline, hrest⟩

/-- A text stops with a line. -/
theorem exists_last_line (cs : List Char) :
    ∃ lead line, lead ++ line = cs ∧ WholeLines lead ∧ '\n' ∉ line := by
  induction cs with
  | nil => exact ⟨[], [], rfl, .inl rfl, List.not_mem_nil⟩
  | cons c cs ih =>
    obtain ⟨lead, line, rfl, hlead, hline⟩ := ih
    by_cases hnil : lead = []
    · subst hnil
      by_cases hc : c = '\n'
      · exact ⟨[c], line, rfl, .inr ⟨[], by rw [hc]; rfl⟩, hline⟩
      · exact ⟨[], c :: line, rfl, .inl rfl,
          List.not_mem_cons_of_ne_of_not_mem (Ne.symm hc) hline⟩
    · exact ⟨c :: lead, line, rfl, hlead.cons hnil c, hline⟩

section Growing

variable {cs lead line rest : List Char} {row : Nat} {c : Char}

/-- A line feed in front of a text is a row of its own, above those of the text. -/
theorem Row.cons_break (h : Row cs row lead line rest) :
    Row ('\n' :: cs) (row + 1) ('\n' :: lead) line rest where
  append_eq := by rw [List.cons_append, h.append_eq]
  count_eq := by rw [List.count_cons_self, h.count_eq]
  whole := by
    by_cases hnil : lead = []
    · exact .inr ⟨[], by rw [hnil]; rfl⟩
    · exact h.whole.cons hnil '\n'
  no_break := h.no_break
  ends := h.ends

/-- Another character in front of a text makes the first of its rows longer. -/
theorem Row.cons_line (h : Row cs row [] line rest) (hc : c ≠ '\n') :
    Row (c :: cs) row [] (c :: line) rest where
  append_eq := by
    rw [← h.append_eq]
    rfl
  count_eq := h.count_eq
  whole := .inl rfl
  no_break := List.not_mem_cons_of_ne_of_not_mem (Ne.symm hc) h.no_break
  ends := h.ends

/-- It leaves the later rows as they are. -/
theorem Row.cons_lead (h : Row cs row lead line rest) (hnil : lead ≠ []) (hc : c ≠ '\n') :
    Row (c :: cs) row (c :: lead) line rest where
  append_eq := by rw [List.cons_append, h.append_eq]
  count_eq := by rw [List.count_cons_of_ne hc, h.count_eq]
  whole := h.whole.cons hnil c
  no_break := h.no_break
  ends := h.ends

end Growing

/-- The first row of a text has nothing before it. -/
theorem exists_first_row (cs : List Char) : ∃ line rest, Row cs 0 [] line rest := by
  obtain ⟨line, rest, heq, hline, hrest⟩ := exists_first_line cs
  exact ⟨line, rest, heq, rfl, .inl rfl, hline, hrest⟩

/-- A text has a row for each line feed and one more. -/
theorem exists_row {cs : List Char} {row : Nat} (h : row ≤ cs.count '\n') :
    ∃ lead line rest, Row cs row lead line rest := by
  induction cs generalizing row with
  | nil =>
    obtain rfl : row = 0 := by simpa using h
    exact ⟨[], exists_first_row []⟩
  | cons c cs ih =>
    cases row with
    | zero => exact ⟨[], exists_first_row (c :: cs)⟩
    | succ row =>
      by_cases hc : c = '\n'
      · subst hc
        rw [List.count_cons_self] at h
        obtain ⟨lead, line, rest, hrow⟩ := ih (Nat.le_of_succ_le_succ h)
        exact ⟨'\n' :: lead, line, rest, hrow.cons_break⟩
      · rw [List.count_cons_of_ne hc] at h
        obtain ⟨lead, line, rest, hrow⟩ := ih h
        -- a later row has a line before it
        have hnil : lead ≠ [] := by
          rintro rfl
          exact absurd hrow.count_eq (by simp)
        exact ⟨c :: lead, line, rest, hrow.cons_lead hnil hc⟩

/-- Every offset up to the end of a text lies in one of its rows, also one inside a
character. -/
theorem exists_row_around {cs : List Char} {offset : Nat} (h : offset ≤ byteLength cs) :
    ∃ row lead line rest, Row cs row lead line rest ∧ byteLength lead ≤ offset ∧
      offset ≤ byteLength lead + byteLength line := by
  induction cs generalizing offset with
  | nil =>
    obtain ⟨line, rest, hrow⟩ := exists_first_row []
    exact ⟨0, [], line, rest, hrow, Nat.zero_le _, Nat.le_trans h (Nat.le_add_right _ _)⟩
  | cons c cs ih =>
    rw [byteLength_cons] at h
    obtain ⟨row, lead, line, rest, hrow, hstart, hstop⟩ :=
      ih (Nat.sub_le_iff_le_add'.mpr h)
    by_cases hc : c = '\n'
    · subst hc
      have hbreak : '\n'.utf8Size = 1 := rfl
      by_cases hzero : offset = 0
      · -- in front of the line feed is the row that it ends, not one of those behind it
        obtain ⟨line, rest, hrow⟩ := exists_first_row ('\n' :: cs)
        exact ⟨0, [], line, rest, hrow, Nat.zero_le _, by omega⟩
      · refine ⟨row + 1, _, line, rest, hrow.cons_break, ?_⟩
        rw [byteLength_cons]
        omega
    · by_cases hnil : lead = []
      · subst hnil
        refine ⟨row, [], _, rest, hrow.cons_line hc, Nat.zero_le _, ?_⟩
        rw [byteLength_cons]
        omega
      · -- the lines above the row take bytes,
        -- so the offset is not in front of the character
        have hlead : byteLength lead ≠ 0 :=
          fun hzero => hnil (byteLength_eq_zero_iff.mp hzero)
        refine ⟨row, _, line, rest, hrow.cons_lead hnil hc, ?_⟩
        rw [byteLength_cons]
        omega

/-- A prefix of a text ends in the row that as many line feeds lead to. -/
theorem exists_row_upto {cs upto : List Char} (h : upto <+: cs) :
    ∃ lead before after rest, upto = lead ++ before ∧
      Row cs (upto.count '\n') lead (before ++ after) rest := by
  obtain ⟨more, rfl⟩ := h
  obtain ⟨lead, before, rfl, hlead, hbefore⟩ := exists_last_line upto
  obtain ⟨after, rest, rfl, hafter, hrest⟩ := exists_first_line more
  refine ⟨lead, before, after, rest, rfl, ?_, ?_, hlead, ?_, hrest⟩
  · simp only [List.append_assoc]
  · rw [List.count_append, List.count_eq_zero.mpr hbefore, Nat.add_zero]
  · simp [hbefore, hafter]

/-- The position behind some characters of a row. -/
theorem Row.behind_eq {cs lead line rest before : List Char} {row : Nat}
    (h : Row cs row lead line rest) (hbefore : before <+: line) :
    Position.behind (lead ++ before) = ⟨row + 1, before.length⟩ := by
  have hno : '\n' ∉ before := fun hmem => h.no_break (hbefore.subset hmem)
  have hline := Position.line_behind lead
  rw [h.count_eq] at hline
  have hcolumn : (Position.behind lead).column = 0 := by
    rcases h.whole with rfl | ⟨lines, rfl⟩
    · rfl
    · simp [Position.behind, Position.next]
  rw [Position.behind, List.foldl_append, ← Position.behind,
    Position.foldl_next_of_not_mem hno, hline, hcolumn, Nat.zero_add]

theorem Row.behind_take {cs lead line rest : List Char} {position : Position}
    (h : Row cs (position.line - 1) lead line rest) (hline : position.line ≠ 0)
    (hcolumn : position.column ≤ line.length) :
    Position.behind (lead ++ line.take position.column) = position := by
  rw [h.behind_eq (List.take_prefix _ _), List.length_take_of_le hcolumn,
    Nat.sub_add_cancel (Nat.pos_of_ne_zero hline)]

theorem Row.isPrefix_append_take {cs lead line rest : List Char} {row : Nat}
    (h : Row cs row lead line rest) (count : Nat) : lead ++ line.take count <+: cs := by
  rw [← h.append_eq, List.prefix_append_right_inj]
  exact (List.take_prefix _ _).trans (List.prefix_append _ _)

/-! ## Lines -/

/-- The lines of a text without their line feeds. -/
def lines : List Char → List (List Char)
  | [] => [[]]
  | c :: cs => if c = '\n' then [] :: lines cs else (lines cs).modifyHead (c :: ·)

theorem lines_ne_nil (cs : List Char) : lines cs ≠ [] := by
  cases cs with
  | nil => simp [lines]
  | cons c cs =>
    have hne := lines_ne_nil cs
    simp only [lines]
    split
    · simp
    · simpa using hne

/-- There is one line more than there are line feeds. -/
theorem length_lines (cs : List Char) : (lines cs).length = cs.count '\n' + 1 := by
  induction cs with
  | nil => rfl
  | cons c cs ih =>
    by_cases hc : c = '\n'
    · simp [lines, hc, ih]
    · simp [lines, hc, ih]

theorem lines_append_break (cs ds : List Char) :
    lines (cs ++ '\n' :: ds) = lines cs ++ lines ds := by
  induction cs with
  | nil => rfl
  | cons c cs ih =>
    rw [List.cons_append, lines, lines, ih]
    split
    · rfl
    · obtain ⟨line, more, hline⟩ := List.exists_cons_of_ne_nil (lines_ne_nil cs)
      rw [hline]
      rfl

theorem lines_append_of_startsLine {line rest : List Char} (hline : '\n' ∉ line)
    (hrest : StartsLine rest) : ∃ more, lines (line ++ rest) = line :: more := by
  have of_line : lines line = [line] := by
    induction line with
    | nil => rfl
    | cons c line ih =>
      have hc : c ≠ '\n' := Ne.symm (List.ne_of_not_mem_cons hline)
      rw [lines, if_neg hc, ih (List.not_mem_of_not_mem_cons hline)]
      rfl
  rcases hrest with rfl | ⟨more, rfl⟩
  · exact ⟨[], by rw [List.append_nil, of_line]⟩
  · exact ⟨lines more, by rw [lines_append_break, of_line]; rfl⟩

/-- The characters of a row are the line of that number. -/
theorem Row.getElem?_lines {cs lead line rest : List Char} {row : Nat}
    (h : Row cs row lead line rest) : (lines cs)[row]? = some line := by
  obtain ⟨more, hmore⟩ := lines_append_of_startsLine h.no_break h.ends
  rw [← h.append_eq]
  rcases h.whole with rfl | ⟨above, rfl⟩
  · rw [← h.count_eq, List.nil_append, hmore]
    rfl
  · rw [List.append_assoc, List.singleton_append, lines_append_break, hmore,
      List.getElem?_append_right, length_lines, ← h.count_eq, List.count_append]
    · simp
    · rw [length_lines, ← h.count_eq, List.count_append]
      simp

end Text

/-- A position lies in a text if the text has its line, and that is not shorter than the
column. -/
def Position.LiesIn (position : Position) (cs : List Char) : Prop :=
  position.line ≠ 0 ∧ ∃ line ∈ (Text.lines cs)[position.line - 1]?,
    position.column ≤ line.length

/-- The positions that lie in a text are those behind its prefixes. -/
theorem Position.liesIn_iff {position : Position} {cs : List Char} :
    position.LiesIn cs ↔ ∃ upto, upto <+: cs ∧ behind upto = position := by
  constructor
  · intro ⟨hline, line, hmem, hcolumn⟩
    have hlt := (List.getElem?_eq_some_iff.mp hmem).1
    rw [Text.length_lines] at hlt
    obtain ⟨lead, line', rest, hrow⟩ := Text.exists_row (Nat.le_of_lt_succ hlt)
    obtain rfl := Option.some.inj (hmem.symm.trans hrow.getElem?_lines)
    exact ⟨_, hrow.isPrefix_append_take _, hrow.behind_take hline hcolumn⟩
  · rintro ⟨upto, hprefix, rfl⟩
    obtain ⟨lead, before, after, rest, rfl, hrow⟩ := Text.exists_row_upto hprefix
    rw [hrow.behind_eq (List.prefix_append _ _)]
    refine ⟨Nat.succ_ne_zero _, before ++ after, hrow.getElem?_lines, ?_⟩
    simp

/-! ## Line breaks -/

namespace LineBreaks

theorem scan_of_not_mem {cs : List Char} (h : '\n' ∉ cs) (offset : Nat) :
    scan offset cs = [] := by
  induction cs generalizing offset with
  | nil => rfl
  | cons c cs ih =>
    have hc : c ≠ '\n' := Ne.symm (List.ne_of_not_mem_cons h)
    rw [scan, if_neg hc, ih (List.not_mem_of_not_mem_cons h)]

theorem length_scan (offset : Nat) (cs : List Char) :
    (scan offset cs).length = cs.count '\n' := by
  induction cs generalizing offset with
  | nil => rfl
  | cons c cs ih =>
    by_cases hc : c = '\n'
    · simp [scan, hc, ih]
    · simp [scan, hc, ih]

/-- A line feed stands inside the text. -/
theorem bounds_of_mem_scan {offset stop : Nat} {cs : List Char}
    (h : stop ∈ scan offset cs) :
    offset ≤ stop ∧ stop < offset + Text.byteLength cs := by
  induction cs generalizing offset with
  | nil => cases h
  | cons c cs ih =>
    have hpos := c.utf8Size_pos
    have of_rest (hrest : stop ∈ scan (offset + c.utf8Size) cs) :
        offset ≤ stop ∧ stop < offset + Text.byteLength (c :: cs) := by
      have hin := ih hrest
      rw [Text.byteLength_cons]
      omega
    rw [scan] at h
    split at h
    · rcases List.mem_cons.mp h with rfl | hrest
      · rw [Text.byteLength_cons]
        omega
      · exact of_rest hrest
    · exact of_rest h

theorem toList_breaks_ofText (text : String) :
    (ofText text).breaks.toList = scan 0 text.toList :=
  rfl

variable {text : String} {row : Nat} {lead line rest : List Char}

/-- The line feeds of a text before, at the end of, and behind one of its rows. -/
theorem scan_of_row (h : Text.Row text.toList row lead line rest) :
    scan 0 text.toList =
      scan 0 lead ++ scan (Text.byteLength lead + Text.byteLength line) rest := by
  rw [← h.append_eq, scan_append, scan_append, scan_of_not_mem h.no_break]
  simp

/-- A row starts behind the lines before it. -/
theorem rowStart?_of_row (h : Text.Row text.toList row lead line rest) :
    (ofText text).rowStart? row = some (Text.byteLength lead) := by
  rw [← h.count_eq]
  rcases h.whole with rfl | ⟨above, rfl⟩
  · rfl
  · have hcount : (above ++ ['\n']).count '\n' = above.count '\n' + 1 := by simp
    rw [hcount, rowStart?, ← Array.getElem?_toList, toList_breaks_ofText, scan_of_row h,
      scan_append, List.append_assoc,
      List.getElem?_append_right (Nat.le_of_eq (length_scan _ _)), length_scan,
      Nat.sub_self]
    have hbreak : '\n'.utf8Size = 1 := rfl
    simp [scan, hbreak]

/-- A row stops in front of its line feed, or where the text does. -/
theorem rowStop_of_row (h : Text.Row text.toList row lead line rest) :
    (ofText text).rowStop row = Text.byteLength lead + Text.byteLength line := by
  rw [rowStop, ← Array.getElem?_toList, toList_breaks_ofText, scan_of_row h, ← h.count_eq,
    List.getElem?_append_right (Nat.le_of_eq (length_scan _ _)), length_scan,
    Nat.sub_self]
  rcases h.ends with rfl | ⟨more, rfl⟩
  · have hlength := congrArg Text.byteLength h.append_eq
    simp [Text.byteLength_toList] at hlength
    simp [scan, ofText, hlength]
  · simp [scan]

/-- Only rows of the text have a start. -/
theorem exists_row_of_rowStart? {start : Nat}
    (h : (ofText text).rowStart? row = some start) :
    ∃ lead line rest, Text.Row text.toList row lead line rest := by
  apply Text.exists_row
  cases row with
  | zero => exact Nat.zero_le _
  | succ row =>
    obtain ⟨stop, hstop, -⟩ := Option.map_eq_some_iff.mp h
    rw [← Array.getElem?_toList, toList_breaks_ofText] at hstop
    have hlt := (List.getElem?_eq_some_iff.mp hstop).1
    rw [length_scan] at hlt
    exact hlt

/-- A row lies in the text. -/
theorem le_length_of_row (h : Text.Row text.toList row lead line rest) :
    Text.byteLength lead + Text.byteLength line ≤ (ofText text).length := by
  have hlength := congrArg Text.byteLength h.append_eq
  rw [Text.byteLength_append, Text.byteLength_append, Text.byteLength_toList,
    ← Nat.add_assoc] at hlength
  exact Nat.le.intro hlength

section Within

variable {offset : Nat}

/-- Bisection finds the row that an offset lies in. -/
theorem bisect_breaks_of_row (h : Text.Row text.toList row lead line rest)
    (hstart : Text.byteLength lead ≤ offset)
    (hstop : offset ≤ Text.byteLength lead + Text.byteLength line) :
    bisect (· < offset) (ofText text).breaks = row := by
  have hscan := (toList_breaks_ofText text).trans (scan_of_row h)
  have hlead : (scan 0 lead).length = row := (length_scan 0 lead).trans h.count_eq
  refine bisect_eq_of_turns ?_ ?_ ?_
  · rw [← Array.length_toList, hscan, List.length_append, hlead]
    exact Nat.le_add_right _ _
  · -- the line feeds above the row
    intro i hi
    rw [← hlead] at hi
    rw [← Array.getElem?_toList, hscan, List.getElem?_append_left hi,
      List.getElem?_eq_getElem hi]
    have hin := bounds_of_mem_scan (List.getElem_mem hi)
    rw [Option.any_some, decide_eq_true_eq]
    omega
  · -- the one that ends it, and those behind it
    intro i hi
    rw [← hlead] at hi
    rw [← Array.getElem?_toList, hscan, List.getElem?_append_right hi]
    generalize i - (scan 0 lead).length = k
    cases hbreak : (scan (Text.byteLength lead + Text.byteLength line) rest)[k]? with
    | none => exact Bool.false_ne_true
    | some stop =>
      have hin := bounds_of_mem_scan (List.mem_of_getElem? hbreak)
      rw [Option.any_some, decide_eq_true_eq]
      omega

/-- The column of an offset counts the characters that the given text has there from the
start of the row on. -/
theorem position?_of_row (h : Text.Row text.toList row lead line rest)
    (hstart : Text.byteLength lead ≤ offset)
    (hstop : offset ≤ Text.byteLength lead + Text.byteLength line) (content : String) :
    (ofText text).position? content offset =
      (Text.slice? content.toList (Text.byteLength lead) offset).map
        fun before => ⟨row + 1, before.length⟩ := by
  have hle : offset ≤ (ofText text).length := Nat.le_trans hstop (le_length_of_row h)
  simp only [position?, guard, hle, if_true, Option.pure_def, Option.bind_eq_bind,
    Option.bind_some, bisect_breaks_of_row h hstart hstop, rowStart?_of_row h]
  rw [Option.map_eq_bind]
  rfl

end Within

/-- The position of a place in a text is the one behind what stands before it. -/
theorem position?_upto {upto : List Char} (h : upto <+: text.toList) :
    (ofText text).position? text (Text.byteLength upto) =
      some (Position.behind upto) := by
  obtain ⟨lead, before, after, rest, rfl, hrow⟩ := Text.exists_row_upto h
  have hslice : Text.slice? text.toList (Text.byteLength lead)
      (Text.byteLength lead + Text.byteLength before) = some before := by
    rw [← hrow.append_eq, List.append_assoc, ← List.append_assoc lead]
    exact Text.slice?_mid lead before _
  have hstop : Text.byteLength lead + Text.byteLength before ≤
      Text.byteLength lead + Text.byteLength (before ++ after) := by
    rw [Text.byteLength_append]
    omega
  rw [hrow.behind_eq (List.prefix_append _ _), Text.byteLength_append,
    position?_of_row hrow (Nat.le_add_right _ _) hstop, hslice]
  rfl

/-- A position is that of an offset exactly if it is behind as many bytes of the text. -/
theorem position?_eq_some_iff {offset : Nat} {position : Position} :
    (ofText text).position? text offset = some position ↔
      ∃ upto, upto <+: text.toList ∧ Text.byteLength upto = offset ∧
        Position.behind upto = position := by
  constructor
  · intro h
    have hcut : Text.IsBoundary text.toList offset := by
      simp only [position?, Option.bind_eq_bind, Option.bind_eq_some_iff] at h
      obtain ⟨-, -, start, -, before, hslice, -⟩ := h
      obtain ⟨lead, rest, heq, rfl, hlength⟩ := Text.slice?_eq_some_iff.mp hslice
      exact ⟨lead ++ before, ⟨rest, heq⟩, by rw [Text.byteLength_append, hlength]⟩
    obtain ⟨upto, hprefix, rfl⟩ := hcut
    rw [position?_upto hprefix] at h
    exact ⟨upto, hprefix, rfl, Option.some.inj h⟩
  · rintro ⟨upto, hprefix, rfl, rfl⟩
    exact position?_upto hprefix

/-- The offset of a position is that many characters behind the start of its row, if the
given text has all of that row. -/
theorem offset?_iff_row {content : String} {offset : Nat} {position : Position} :
    (ofText text).offset? content position = some offset ↔
      position.line ≠ 0 ∧ ∃ lead line rest part,
        Text.Row text.toList (position.line - 1) lead line rest ∧
        Text.slice? content.toList (Text.byteLength lead)
          (Text.byteLength lead + Text.byteLength line) = some part ∧
        position.column ≤ part.length ∧
        Text.byteLength lead + Text.byteLength (part.take position.column) = offset := by
  simp only [offset?, Option.pure_def, Option.bind_eq_bind, Option.bind_eq_some_iff,
    Option.guard_eq_some', Option.some.injEq]
  constructor
  · rintro ⟨-, hline, start, hstart, part, hslice, -, hcolumn, hoffset⟩
    obtain ⟨lead, line, rest, hrow⟩ := exists_row_of_rowStart? hstart
    obtain rfl := Option.some.inj (hstart.symm.trans (rowStart?_of_row hrow))
    rw [rowStop_of_row hrow] at hslice
    exact ⟨hline, lead, line, rest, part, hrow, hslice, hcolumn, hoffset⟩
  · rintro ⟨hline, lead, line, rest, part, hrow, hslice, hcolumn, hoffset⟩
    rw [← rowStop_of_row hrow] at hslice
    exact ⟨(), hline, _, rowStart?_of_row hrow, part, hslice, (), hcolumn, hoffset⟩

/-- An offset is that of a position under the same condition. -/
theorem offset?_eq_some_iff {offset : Nat} {position : Position} :
    (ofText text).offset? text position = some offset ↔
      ∃ upto, upto <+: text.toList ∧ Text.byteLength upto = offset ∧
        Position.behind upto = position := by
  have slice?_of_row {row : Nat} {lead line rest : List Char}
      (h : Text.Row text.toList row lead line rest) :
      Text.slice? text.toList (Text.byteLength lead)
        (Text.byteLength lead + Text.byteLength line) = some line := by
    rw [← h.append_eq, ← List.append_assoc]
    exact Text.slice?_mid lead line rest
  rw [offset?_iff_row]
  constructor
  · rintro ⟨hline, lead, line, rest, part, hrow, hslice, hcolumn, hoffset⟩
    obtain rfl := Option.some.inj (hslice.symm.trans (slice?_of_row hrow))
    refine ⟨_, hrow.isPrefix_append_take position.column, ?_,
      hrow.behind_take hline hcolumn⟩
    rw [Text.byteLength_append, hoffset]
  · rintro ⟨upto, hprefix, rfl, rfl⟩
    obtain ⟨lead, before, after, rest, rfl, hrow⟩ := Text.exists_row_upto hprefix
    rw [hrow.behind_eq (List.prefix_append _ _), Text.byteLength_append]
    refine ⟨Nat.succ_ne_zero _, lead, _, rest, _, hrow, slice?_of_row hrow, ?_, ?_⟩
    · exact (List.prefix_append _ _).length_le
    · rw [List.take_left]

end LineBreaks

/-! ## Numbered texts -/

namespace NumberedText

variable {numbered : NumberedText} {offset : Nat} {position : Position}

theorem position?_eq_some_iff :
    numbered.position? offset = some position ↔
      ∃ upto, upto <+: numbered.text.toList ∧ Text.byteLength upto = offset ∧
        Position.behind upto = position := by
  rw [NumberedText.position?, numbered.breaks_eq, LineBreaks.position?_eq_some_iff]

/-- The two conversions of a text are inverse to each other. -/
theorem offset?_eq_some_iff :
    numbered.offset? position = some offset ↔
      numbered.position? offset = some position := by
  rw [position?_eq_some_iff, NumberedText.offset?, numbered.breaks_eq,
    LineBreaks.offset?_eq_some_iff]

/-- The offsets that have a position are the boundaries of the text. -/
theorem isBoundary_iff :
    Text.IsBoundary numbered.text.toList offset ↔
      ∃ position, numbered.position? offset = some position := by
  simp only [position?_eq_some_iff, Text.IsBoundary]
  constructor
  · intro ⟨upto, hprefix, hlength⟩
    exact ⟨_, upto, hprefix, hlength, rfl⟩
  · intro ⟨_, upto, hprefix, hlength, _⟩
    exact ⟨upto, hprefix, hlength⟩

/-- The positions that have an offset are those that lie in the text. -/
theorem liesIn_iff :
    position.LiesIn numbered.text.toList ↔
      ∃ offset, numbered.offset? position = some offset := by
  simp only [offset?_eq_some_iff, position?_eq_some_iff, Position.liesIn_iff]
  constructor
  · intro ⟨upto, hprefix, hposition⟩
    exact ⟨_, upto, hprefix, rfl, hposition⟩
  · intro ⟨_, upto, hprefix, _, hposition⟩
    exact ⟨upto, hprefix, hposition⟩

end NumberedText

end ProseMap
