import ProseMap.Projection
import ProseMap.Proofs.Lines
import ProseMap.Proofs.Tiling

/-!
# Queries

A projection is asked about offsets or about positions of its text, and answers with
offsets or with positions of the source. The four kinds of answers agree: they differ only
by conversions in texts whose lines are counted, and there the conversions are inverse to
each other. -/

namespace ProseMap

namespace Projection

/-- What a position query answers when the matching offset query answers `offset`: the
position of the offset in the source, from which the offset is found again, and nothing
only if there is nothing to convert or no place for it in the source. -/
structure Converts (source : Option String) (offset : Option Nat)
    (position : Option Position) : Prop where
  back : ∀ p, position = some p → ∃ text o, source = some text ∧ offset = some o ∧
    (NumberedText.of text).offset? p = some o
  lost : position = none → offset = none ∨ source = none ∨
    ∃ text o, source = some text ∧ offset = some o ∧ ¬ Text.IsBoundary text.toList o

/-- The queries of a projection fit together. -/
structure QueriesAgree (projection : Projection) (source : Option String) : Prop where
  /-- Where the text can be cut, it makes no difference whether the place is named by its
  offset or by its position. -/
  of_boundary : ∀ bias offset, Text.IsBoundary projection.generated.text.toList offset →
    ∃ position, projection.generated.position? offset = some position ∧
      projection.offsetOfPosition? position bias =
        projection.offsetOfOffset? offset bias ∧
      projection.positionOfPosition? position bias =
        projection.positionOfOffset? offset bias
  /-- Only such places have a position, and these are the columns of the text's lines. -/
  liesIn_iff : ∀ position, position.LiesIn projection.generated.text.toList ↔
    ∃ offset, Text.IsBoundary projection.generated.text.toList offset ∧
      projection.generated.position? offset = some position
  /-- Nothing is answered about any other position. -/
  elsewhere : ∀ bias position, ¬ position.LiesIn projection.generated.text.toList →
    projection.offsetOfPosition? position bias = none ∧
      projection.positionOfPosition? position bias = none
  converts_offset : ∀ bias offset,
    Converts source (projection.offsetOfOffset? offset bias)
      (projection.positionOfOffset? offset bias)
  converts_position : ∀ bias position,
    Converts source (projection.offsetOfPosition? position bias)
      (projection.positionOfPosition? position bias)

/-! ## Conversion in the source -/

theorem sourcePosition?_of_no_source {projection : Projection}
    (h : projection.source = none) (offset : Nat) :
    projection.sourcePosition? offset = none := by
  simp [sourcePosition?, h]

theorem sourcePosition?_of_source {projection : Projection} {numbered : NumberedText}
    (h : projection.source = some numbered) (offset : Nat) :
    projection.sourcePosition? offset = numbered.position? offset := by
  simp [sourcePosition?, h]

/-- An offset converts to its position in the source. -/
theorem converts (projection : Projection) (offset : Option Nat) :
    Converts (projection.source.map (·.text)) offset
      (offset.bind projection.sourcePosition?) := by
  cases hsource : projection.source with
  | none =>
    refine ⟨?_, fun _ => .inr (.inl rfl)⟩
    intro p hp
    obtain ⟨o, -, ho⟩ := Option.bind_eq_some_iff.mp hp
    rw [sourcePosition?_of_no_source hsource] at ho
    cases ho
  | some numbered =>
    cases offset with
    | none => exact ⟨nofun, fun _ => .inl rfl⟩
    | some o =>
      rw [Option.bind_some, sourcePosition?_of_source hsource]
      -- the line breaks of a numbered text are determined by the text
      have hnumbered : NumberedText.of numbered.text = numbered := by
        cases numbered with
        | mk text breaks breaks_eq =>
          subst breaks_eq
          rfl
      refine ⟨?_, ?_⟩
      · intro p hp
        refine ⟨_, o, rfl, rfl, ?_⟩
        rw [hnumbered]
        exact NumberedText.offset?_eq_some_iff.mpr hp
      · intro hnone
        refine .inr (.inr ⟨_, o, rfl, rfl, ?_⟩)
        intro hcut
        obtain ⟨p, hp⟩ := NumberedText.isBoundary_iff.mp hcut
        rw [hnone] at hp
        cases hp

/-! ## Conversion in the text -/

theorem positionOfOffset?_eq_bind (projection : Projection) (offset : Nat) (bias : Bias) :
    projection.positionOfOffset? offset bias =
      (projection.offsetOfOffset? offset bias).bind projection.sourcePosition? := rfl

theorem positionOfPosition?_eq_bind (projection : Projection) (position : Position)
    (bias : Bias) :
    projection.positionOfPosition? position bias =
      (projection.offsetOfPosition? position bias).bind projection.sourcePosition? := rfl

/-- A position of the text is answered as its offset is. -/
theorem offsetOfPosition?_of_position? {projection : Projection} {offset : Nat}
    {position : Position} (h : projection.generated.position? offset = some position)
    (bias : Bias) :
    projection.offsetOfPosition? position bias =
      projection.offsetOfOffset? offset bias := by
  simp [offsetOfPosition?, NumberedText.offset?_eq_some_iff.mpr h]

theorem offsetOfPosition?_of_not_liesIn {projection : Projection} {position : Position}
    (h : ¬ position.LiesIn projection.generated.text.toList) (bias : Bias) :
    projection.offsetOfPosition? position bias = none := by
  rw [NumberedText.liesIn_iff, ← Option.ne_none_iff_exists', not_not] at h
  simp [offsetOfPosition?, h]

theorem queriesAgree (projection : Projection) :
    projection.QueriesAgree (projection.source.map (·.text)) where
  of_boundary := by
    intro bias offset hcut
    obtain ⟨position, hposition⟩ := NumberedText.isBoundary_iff.mp hcut
    have hoffset := offsetOfPosition?_of_position? hposition bias
    exact ⟨position, hposition, hoffset, by
      rw [positionOfPosition?_eq_bind, hoffset, positionOfOffset?_eq_bind]⟩
  liesIn_iff := by
    intro position
    rw [NumberedText.liesIn_iff]
    constructor
    · intro ⟨offset, hoffset⟩
      have hposition := NumberedText.offset?_eq_some_iff.mp hoffset
      exact ⟨offset, NumberedText.isBoundary_iff.mpr ⟨position, hposition⟩, hposition⟩
    · intro ⟨offset, _, hposition⟩
      exact ⟨offset, NumberedText.offset?_eq_some_iff.mpr hposition⟩
  elsewhere := by
    intro bias position h
    have hoffset := offsetOfPosition?_of_not_liesIn h bias
    exact ⟨hoffset, by rw [positionOfPosition?_eq_bind, hoffset, Option.bind_none]⟩
  converts_offset := by
    intro bias offset
    exact converts projection _
  converts_position := by
    intro bias position
    exact converts projection _

/-! ## Constructions -/

theorem text_source_ofFlattening (flattening : Flattening) (source : Option String) :
    (ofFlattening flattening source).source.map (·.text) = source := by
  cases source <;> rfl

/-- Whatever the tree, the source and the redactor are, the queries of a projection that
is built from them agree. -/
theorem queriesAgree_of_construction (root : Node) :
    (ofRoot root).QueriesAgree (Options.sourceText {} root) ∧
    ∀ options projection, build root options = .ok projection →
      projection.QueriesAgree (options.sourceText root) := by
  have of_flattening (flattening : Flattening) (source : Option String) :
      (ofFlattening flattening source).QueriesAgree source := by
    have h := queriesAgree (ofFlattening flattening source)
    rw [text_source_ofFlattening] at h
    exact h
  refine ⟨of_flattening _ _, ?_⟩
  intro options projection h
  obtain ⟨flattening, -, rfl⟩ := build_eq_ok_iff.mp h
  exact of_flattening _ _

/-- Two lines, the first with a character of two bytes and the second with emphasis. -/
def twoLines : Node :=
  { Node.spanning .document "é\n*b*" ⟨0, 6⟩ with
    children :=
      [{ Node.spanning .paragraph "é\n*b*" ⟨0, 6⟩ with
        children :=
          [{ Node.spanning .str "é\n*b*" ⟨0, 3⟩ with value := some "é\n" },
           { Node.spanning .emphasis "é\n*b*" ⟨3, 6⟩ with
            children :=
              [{ Node.spanning .str "é\n*b*" ⟨4, 5⟩ with value := some "b" }] }] }] }

/-- Masks what is directly in emphasis. -/
def maskEmphasized (symbol : Char) : Redactor := fun _ parent =>
  if parent.kind = .emphasis then some (.mask symbol) else none

/-- The end of the emphasized letter is at the same place for all queries, also under a
mask. -/
theorem queriesAgree_of_two_lines :
    ∃ projection,
      build twoLines { redactor := some (maskEmphasized '*') } = .ok projection ∧
      projection.generated.text = "é\n*" ∧
      projection.offsetOfPosition? ⟨2, 1⟩ .stop = some 5 ∧
      projection.positionOfOffset? 4 .stop = some ⟨2, 2⟩ ∧
      projection.QueriesAgree (some "é\n*b*") :=
  ⟨_, rfl, by decide, by decide, by decide,
    (queriesAgree_of_construction twoLines).2
      { redactor := some (maskEmphasized '*') } _ rfl⟩

end Projection

end ProseMap
