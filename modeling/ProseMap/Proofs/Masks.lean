import ProseMap.Proofs.Edits
import ProseMap.Proofs.Fidelity
import ProseMap.Proofs.Queries

/-!
# Masks

A mask keeps the number of characters, while lookups count bytes. Where the symbol is not
as wide as the characters that it hides, an offset between two symbols can lead into the
middle of a character of the source, which has no position. `answersAll_iff` says exactly
when this does not happen. -/

namespace ProseMap

/-! ## Cuts in masked text -/

namespace Redaction

/-- However many characters of a text are masked, as many bytes of the text itself, or all
of it if it is shorter, end between two of its characters. -/
def KeepsCuts (redaction : Redaction) (text : String) : Prop :=
  match redaction with
  | .mask symbol => ∀ k ≤ text.length,
    Text.IsBoundary text.toList (min (k * symbol.utf8Size) text.utf8ByteSize)
  | .clear => True

instance (redaction : Redaction) (text : String) : Decidable (redaction.KeepsCuts text) :=
  match redaction with
  | .mask symbol => inferInstanceAs (Decidable (∀ k ≤ text.length,
      Text.IsBoundary text.toList (min (k * symbol.utf8Size) text.utf8ByteSize)))
  | .clear => inferInstanceAs (Decidable True)

/-- A masked text can be cut behind each symbol. -/
theorem isBoundary_masked_iff {symbol : Char} {text : String} {offset : Nat} :
    Text.IsBoundary (masked symbol text).toList offset ↔
      ∃ k ≤ text.length, k * symbol.utf8Size = offset := by
  have htoList : (masked symbol text).toList = List.replicate text.length symbol := by
    rw [masked, String.toList_ofList, List.map_const', String.length_toList]
  rw [htoList]
  constructor
  · rintro ⟨upto, hupto, hlength⟩
    obtain ⟨hle, hrep⟩ := List.prefix_replicate_iff.mp hupto
    rw [hrep, Text.byteLength_replicate] at hlength
    exact ⟨upto.length, hle, hlength⟩
  · rintro ⟨k, hk, rfl⟩
    refine ⟨List.replicate k symbol, ?_, Text.byteLength_replicate k symbol⟩
    rw [List.prefix_replicate_iff]
    simpa using hk

/-- A symbol as wide as every character keeps the cuts. -/
theorem keepsCuts_of_width {symbol : Char} {text : String}
    (h : ∀ c ∈ text.toList, c.utf8Size = symbol.utf8Size) :
    (mask symbol).KeepsCuts text := by
  intro k hk
  have hbytes : text.utf8ByteSize = text.length * symbol.utf8Size := by
    rw [← Text.byteLength_toList, Text.byteLength_of_width h, String.length_toList]
  refine ⟨text.toList.take k, List.take_prefix _ _, ?_⟩
  rw [Text.byteLength_of_width fun c hc => h c (List.mem_of_mem_take hc),
    List.length_take_of_le (by rwa [String.length_toList]), hbytes,
    Nat.min_eq_left (Nat.mul_le_mul_right _ hk)]

end Redaction

/-- A redactor that only masks, and only what there is to mask. -/
def Redactor.MasksValues (redactor : Redactor) (root : Node) : Prop :=
  ∀ parent ∈ root.preorder, ∀ node ∈ parent.children, ∀ redaction ∈ redactor node parent,
    redaction ≠ .clear ∧ node.value.isSome

instance (redactor : Redactor) (root : Node) : Decidable (redactor.MasksValues root) :=
  inferInstanceAs (Decidable (∀ parent ∈ root.preorder, _))

/-- All that the redactor masks in a tree keeps its cuts. -/
def Redactor.KeepsCuts (redactor : Redactor) (root : Node) : Prop :=
  ∀ origin ∈ Trail.origins none (Trail.ofRoot redactor root),
    ∀ redaction ∈ redactor origin.node origin.parent, ∀ value ∈ origin.node.value,
      redaction.KeepsCuts value

instance (redactor : Redactor) (root : Node) : Decidable (redactor.KeepsCuts root) :=
  inferInstanceAs (Decidable (∀ origin ∈ _, _))

namespace Redactor.MasksValues

variable {redactor : Redactor} {root : Node}

theorem edit_eq (h : redactor.MasksValues root) : redactor.edit root = root :=
  edit_eq_self fun parent hparent node hnode hclear =>
    (h parent hparent node hnode .clear hclear).1 rfl

/-- Masks of values are never refused. -/
theorem exists_ofRedacted (h : redactor.MasksValues root) :
    ∃ flattening, Flattening.ofRedacted redactor root = .ok flattening := by
  refine ⟨_, Flattening.ofRedacted_eq_ok_iff.mpr ⟨Trail.refusal?_of_mem_walkAll ?_, rfl⟩⟩
  intro parent hparent node hnode
  cases hr : redactor.redact parent node with
  | ok redacted => exact ⟨redacted, rfl⟩
  | error refusal =>
    obtain ⟨⟨symbol, hmask⟩, hvalue, -⟩ := redact_eq_error_iff.mp hr
    have hsome := (h parent hparent node hnode _ hmask).2
    rw [hvalue] at hsome
    cases hsome

end Redactor.MasksValues

/-! ## Segments of masked text -/

/-- Where a segment's text can be cut, as many bytes of another text can be, or all of it
if it is shorter. -/
def Segment.CutsAs (segment : Segment) (text : String) : Prop :=
  ∀ offset, Text.IsBoundary segment.text.toList offset →
    Text.IsBoundary text.toList (min offset text.utf8ByteSize)

namespace Flattening

variable {redactor : Redactor} {root : Node} {flattening : Flattening} {origin : Origin}
  {segment shown : Segment} {source text : String}

/-- A segment cuts as the text that it shows exactly if a mask on it keeps the cuts. -/
theorem cutsAs_iff_of_shows (h : Shows redactor origin segment shown) :
    segment.CutsAs shown.text ↔
      ∀ redaction ∈ redactor origin.node origin.parent, ∀ value ∈ origin.node.value,
        redaction.KeepsCuts value := by
  by_cases hmasked : ∃ symbol value,
      redactor origin.node origin.parent = some (.mask symbol) ∧
        origin.node.value = some value ∧ value ≠ ""
  · obtain ⟨symbol, value, hmask, hvalue, hne⟩ := hmasked
    rw [Segment.CutsAs, h.text_eq, Redactor.shown_of_masked hmask hvalue hne,
      h.value_eq symbol value hmask hvalue hne]
    simp only [Redaction.isBoundary_masked_iff, hmask, hvalue, Option.mem_some_iff,
      forall_eq']
    constructor
    · intro hcuts k hk
      exact hcuts _ ⟨k, hk, rfl⟩
    · rintro hkeeps _ ⟨k, hk, rfl⟩
      exact hkeeps k hk
  · have hempty : ∀ symbol value,
        redactor origin.node origin.parent = some (.mask symbol) →
          origin.node.value = some value → value = "" := by
      intro symbol value hmask hvalue
      by_contra hne
      exact hmasked ⟨symbol, value, hmask, hvalue, hne⟩
    refine iff_of_true ?_ ?_
    · -- the text is shown as it is
      rw [Segment.CutsAs, h.text_eq, Redactor.shown_of_unmasked hempty]
      intro offset hcut
      have hle := Text.le_of_isBoundary hcut
      rw [Text.byteLength_toList] at hle
      rwa [Nat.min_eq_left hle]
    · intro redaction hredaction value hvalue
      cases redaction with
      | clear => trivial
      | mask symbol =>
        rw [hempty symbol value hredaction hvalue]
        intro k _
        rw [show "".utf8ByteSize = 0 from rfl, Nat.min_zero]
        exact Text.isBoundary_zero _

/-- A masked run stands where the tree has its text in the source. -/
theorem slice?_of_shows (hc : root.CutFrom source) (hv : root.Verbatim)
    (hr : redactor.MasksValues root) (h : Shows redactor origin segment shown)
    (hmem : shown ∈ (ofRoot (redactor.edit root)).map.toList) :
    segment.content.slice? source = some shown.text ∧
      segment.markup.contains segment.content = true := by
  rw [hr.edit_eq] at hmem
  rw [h.content_eq, h.markup_eq]
  exact slice?_content hc hv hmem

/-- A text can be cut inside a run where the run can. -/
theorem isBoundary_text_iff (h : flattening.Tiled)
    (hmem : segment ∈ flattening.map.toList) {distance : Nat}
    (hle : distance ≤ segment.text.utf8ByteSize) :
    Text.IsBoundary flattening.text.toList (segment.generated.start + distance) ↔
      Text.IsBoundary segment.text.toList distance := by
  have hrun := h.row.slice?_join hmem
  rw [← h.text_eq] at hrun
  exact Text.isBoundary_of_slice? (Span.slice?_eq_some_iff.mp hrun)
    (by rwa [Text.byteLength_toList])

end Flattening

/-! ## Positions in masked text -/

namespace Projection

/-- Every place of the text has its position in the source: as a start unless it is the
end of the text, and as a stop unless it is the start. -/
structure AnswersAll (projection : Projection) : Prop where
  start : ∀ offset, Text.IsBoundary projection.generated.text.toList offset →
    offset < projection.generated.text.utf8ByteSize →
    ∃ position, projection.positionOfOffset? offset .start = some position
  stop : ∀ offset, Text.IsBoundary projection.generated.text.toList offset →
    0 < offset → offset ≤ projection.generated.text.utf8ByteSize →
    ∃ position, projection.positionOfOffset? offset .stop = some position

variable {redactor : Redactor} {root : Node} {flattening : Flattening} {segment : Segment}
  {source text : String}

/-- An offset in a run is answered exactly if the source has a cut as far into the run's
content. -/
theorem exists_position_iff (h : flattening.Tiled)
    (hmem : segment ∈ flattening.map.toList)
    (hin : segment.markup.contains segment.content = true)
    (hcontent : segment.content.slice? source = some text) {offset : Nat} {bias : Bias}
    (hh : segment.holds offset bias = true) :
    (∃ position, (ofFlattening flattening (some source)).positionOfOffset? offset bias =
        some position) ↔
      Text.IsBoundary text.toList
        (min (offset - segment.generated.start) text.utf8ByteSize) := by
  have hlength := Span.length_of_slice? hcontent
  have hwidth : segment.content.length = text.utf8ByteSize := by
    rw [Span.length]
    omega
  have hoffset : (ofFlattening flattening (some source)).offsetOfOffset? offset bias =
      some (segment.sourceOffset offset) :=
    SourceMap.sourceOffset?_of_holds h.ordered hmem hh
  have hsource : (ofFlattening flattening (some source)).source = some (.of source) := rfl
  rw [positionOfOffset?_eq_bind, hoffset, Option.bind_some,
    sourcePosition?_of_source hsource, ← NumberedText.isBoundary_iff,
    Segment.sourceOffset_eq hin, hwidth]
  exact Text.isBoundary_of_slice? (Span.slice?_eq_some_iff.mp hcontent)
    (by rw [Text.byteLength_toList]; exact Nat.min_le_right _ _)

/-- All places are answered exactly if every run cuts as its content in the source
does. -/
theorem answersAll_iff_cutsAs (h : flattening.Tiled)
    (hstands : ∀ segment ∈ flattening.map.toList, ∃ text,
      segment.content.slice? source = some text ∧
        segment.markup.contains segment.content = true) :
    (ofFlattening flattening (some source)).AnswersAll ↔
      ∀ segment ∈ flattening.map.toList, ∀ text ∈ segment.content.slice? source,
        segment.CutsAs text := by
  constructor
  · intro hall segment hmem text hcontent distance hcut
    obtain ⟨-, -, hin⟩ := hstands segment hmem
    obtain ⟨-, hlength, -, hstop⟩ := h.row.bounds hmem
    have hle := Text.le_of_isBoundary hcut
    rw [Text.byteLength_toList] at hle
    rcases Nat.eq_zero_or_pos distance with rfl | hpos
    · rw [Nat.zero_min]
      exact Text.isBoundary_zero _
    · -- asked about as a stop, the offset belongs to this run
      have hplace := (Flattening.isBoundary_text_iff h hmem hle).mpr hcut
      rw [h.generatedLength_eq] at hstop
      have hanswer := hall.stop _ hplace (by omega)
        (show _ ≤ flattening.text.utf8ByteSize by omega)
      have hholds : segment.holds (segment.generated.start + distance) .stop = true :=
        Segment.holds_stop_iff.mpr (by omega)
      rw [exists_position_iff h hmem hin hcontent hholds, Nat.add_sub_cancel_left]
        at hanswer
      exact hanswer
  · intro hcuts
    have of_holds {segment : Segment} (hmem : segment ∈ flattening.map.toList)
        {offset : Nat} {bias : Bias}
        (hplace : Text.IsBoundary flattening.text.toList offset)
        (hh : segment.holds offset bias = true) :
        ∃ position,
          (ofFlattening flattening (some source)).positionOfOffset? offset bias =
            some position := by
      obtain ⟨text, hcontent, hin⟩ := hstands segment hmem
      obtain ⟨-, hlength, -, -⟩ := h.row.bounds hmem
      obtain ⟨hstart, hstop⟩ := Segment.bounds_of_holds hh
      rw [exists_position_iff h hmem hin hcontent hh]
      refine hcuts segment hmem text hcontent _ ?_
      rw [← Flattening.isBoundary_text_iff h hmem (by omega), Nat.add_sub_cancel' hstart]
      exact hplace
    refine ⟨?_, ?_⟩
    · intro offset hplace hlt
      obtain ⟨segment, hmem, hh⟩ := h.row.exists_holds_start_iff.mpr
        ⟨Nat.zero_le offset, h.generatedLength_eq ▸ hlt⟩
      exact of_holds hmem hplace hh
    · intro offset hplace hpos hle
      obtain ⟨segment, hmem, hh⟩ := h.row.exists_holds_stop_iff.mpr
        ⟨hpos, h.generatedLength_eq ▸ hle⟩
      exact of_holds hmem hplace hh

/-- A redactor that only masks values never fails, and all places of the text have their
positions in the source if and only if the masks keep the cuts of the values. Masks do
that whose symbols are as wide as the characters that they hide. -/
theorem answersAll_iff (hstart : root.range.start = 0) (hraw : root.raw = source)
    (hc : root.CutFrom source) (hv : root.Verbatim) (hr : redactor.MasksValues root) :
    ∃ projection, build root { redactor := some redactor } = .ok projection ∧
      (projection.AnswersAll ↔ redactor.KeepsCuts root) ∧
      ((∀ origin ∈ Trail.origins none (Trail.ofRoot redactor root), ∀ symbol value,
          redactor origin.node origin.parent = some (.mask symbol) →
          origin.node.value = some value →
            ∀ c ∈ value.toList, c.utf8Size = symbol.utf8Size) →
        projection.AnswersAll) := by
  obtain ⟨flattening, hf⟩ := hr.exists_ofRedacted
  have hsource : Options.sourceText { redactor := some redactor } root = some source := by
    simp [Options.sourceText, hstart, hraw]
  have hiff : (ofFlattening flattening (some source)).AnswersAll ↔
      redactor.KeepsCuts root := by
    rw [answersAll_iff_cutsAs (Flattening.tiled_of_ofRedacted hf)]
    · constructor
      · intro hcuts origin horigin
        obtain ⟨segment, hmem, shown, hshown, hshows⟩ :=
          Flattening.exists_shows_of_origin hf horigin
        rw [← Flattening.cutsAs_iff_of_shows hshows]
        exact hcuts segment hmem _ (Flattening.slice?_of_shows hc hv hr hshows hshown).1
      · intro hkeeps segment hmem text htext
        obtain ⟨origin, horigin, shown, hshown, hshows⟩ :=
          Flattening.exists_shows_of_mem hf hmem
        obtain rfl := Option.some.inj
          (htext.symm.trans (Flattening.slice?_of_shows hc hv hr hshows hshown).1)
        exact (Flattening.cutsAs_iff_of_shows hshows).mpr (hkeeps origin horigin)
    · intro segment hmem
      obtain ⟨origin, -, shown, hshown, hshows⟩ := Flattening.exists_shows_of_mem hf hmem
      exact ⟨_, Flattening.slice?_of_shows hc hv hr hshows hshown⟩
  refine ⟨_, build_eq_ok_iff.mpr ⟨flattening, hf, rfl⟩, ?_⟩
  rw [hsource]
  refine ⟨hiff, fun hwidth => hiff.mpr ?_⟩
  intro origin horigin redaction hredaction value hvalue
  cases redaction with
  | clear => trivial
  | mask symbol =>
    exact Redaction.keepsCuts_of_width
      (hwidth origin horigin symbol value hredaction hvalue)

/-- A symbol that is wider than the one character behind it leads to the end of that. -/
theorem answersAll_of_wide_mask :
    (Node.sample.CutFrom Node.sampleSource ∧ Node.sample.Verbatim ∧
      (maskCode '✱').MasksValues .sample) ∧
    ∃ projection, build .sample { redactor := some (maskCode '✱') } = .ok projection ∧
      projection.AnswersAll := by
  have hall : (Node.sample.CutFrom Node.sampleSource ∧ Node.sample.Verbatim ∧
      (maskCode '✱').MasksValues .sample) := by decide
  refine ⟨hall, ?_⟩
  obtain ⟨projection, hbuild, hiff, -⟩ :=
    answersAll_iff (by decide) rfl hall.1 hall.2.1 hall.2.2
  exact ⟨projection, hbuild, hiff.mpr (by decide)⟩

/-- A code span whose letter has two bytes. -/
def accented : Node :=
  { Node.spanning .paragraph "`é`" ⟨0, 4⟩ with
    children := [{ Node.spanning .code "`é`" ⟨0, 4⟩ with value := some "é" }] }

/-- The end of the mask leads into the middle of the letter. -/
theorem not_answersAll_accented :
    (accented.CutFrom "`é`" ∧ accented.Verbatim ∧ (maskCode '*').MasksValues accented) ∧
      (∃ projection, build accented { redactor := some (maskCode '*') } = .ok projection ∧
        projection.generated.text = "*" ∧ projection.offsetOfOffset? 1 .stop = some 2 ∧
        projection.positionOfOffset? 1 .stop = none) ∧
      ¬ ∀ (source : String) (root : Node) (redactor : Redactor), root.range.start = 0 →
        root.raw = source → root.CutFrom source → root.Verbatim →
          redactor.MasksValues root →
        ∃ projection, build root { redactor := some redactor } = .ok projection ∧
          projection.AnswersAll := by
  refine ⟨by decide, ⟨_, rfl, by decide, by decide, by decide⟩, ?_⟩
  intro h
  obtain ⟨projection, hbuild, hall⟩ := h "`é`" accented (maskCode '*')
    (by decide) (by decide) (by decide) (by decide) (by decide)
  have hnone : projection.positionOfOffset? 1 .stop = none := by
    cases hbuild
    decide
  have hplace : Text.IsBoundary projection.generated.text.toList 1 ∧
      1 ≤ projection.generated.text.utf8ByteSize := by
    cases hbuild
    decide
  obtain ⟨position, hposition⟩ := hall.stop 1 hplace.1 Nat.one_pos hplace.2
  rw [hnone] at hposition
  cases hposition

end Projection

end ProseMap
