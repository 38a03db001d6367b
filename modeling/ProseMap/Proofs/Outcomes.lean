import Mathlib.Data.List.Forall2
import ProseMap.Proofs.Edits
import ProseMap.Proofs.Visits

/-!
# Outcomes

What becomes of each payload that the walk comes upon. It is emitted, as a segment and as
an entry in the log that tells of that segment, or it is skipped, and the log warns of it.
Nothing is lost on the way: `outcomes_of_payloads` accounts for every segment and for
every entry, in the order of the walk. -/

namespace ProseMap

/-! ## Failed searches -/

theorem Text.find?_eq_none_iff {needle cs : List Char} :
    find? needle cs = none ↔ ¬ needle <:+: cs := by
  induction cs with
  | nil => simp [find?]
  | cons c cs ih =>
    rw [List.infix_cons_iff, ← List.isPrefixOf_iff_prefix, find?]
    by_cases hp : needle.isPrefixOf (c :: cs) = true
    · simp [hp]
    · simp [hp, ih]

namespace Excerpt

/-- The search in markup fails only on text that is not in it. -/
theorem find?_eq_none_iff {needle cs : List Char} :
    find? needle cs = none ↔ ¬ needle <:+: cs := by
  cases cs with
  | nil => exact Text.find?_eq_none_iff
  | cons c cs =>
    rw [List.infix_cons_iff, ← List.isPrefixOf_iff_prefix, find?, Option.or_eq_none_iff,
      Option.map_eq_none_iff, Text.find?_eq_none_iff]
    by_cases hp : needle.isPrefixOf (c :: cs) = true
    · simp [hp]
    · simp [hp]

/-- A search is given up if the text is not in the markup, or if it is and the rest of the
markup is longer than the span. -/
theorem locate_eq_error_iff {container : Node} {needle : String} {reason : Skip} :
    locate container needle = .error reason ↔
      (¬ needle.toList <:+: container.raw.toList ∧
        reason = .notFound container.kind needle) ∨
      needle.toList <:+: container.raw.toList ∧
        container.range.stop + needle.utf8ByteSize <
          container.range.start + container.raw.utf8ByteSize ∧
        reason = .outside container.kind container.range := by
  cases hf : find? needle.toList container.raw.toList with
  | none => simp [locate, hf, find?_eq_none_iff.mp hf, eq_comm]
  | some left =>
    have hin : needle.toList <:+: container.raw.toList := by
      by_contra hout
      rw [← find?_eq_none_iff, hf] at hout
      cases hout
    have hle := left_le_of_find? hf
    simp only [locate, hf, hin, not_true_eq_false, false_and, false_or, true_and]
    split
    · rename_i hfits
      simp only [reduceCtorEq, false_iff, not_and]
      omega
    · rename_i hlonger
      simp only [Except.error.injEq, eq_comm (a := reason), iff_and_self]
      omega

/-- In markup that is as long as its span a search fails only on text that is not in
it. -/
theorem exists_locate_eq_error_iff {container : Node} {needle : String}
    (hordered : container.range.start ≤ container.range.stop)
    (hfits : container.raw.utf8ByteSize = container.range.length) :
    (∃ reason, locate container needle = .error reason) ↔
      ¬ needle.toList <:+: container.raw.toList := by
  rw [Span.length] at hfits
  simp only [locate_eq_error_iff]
  constructor
  · rintro ⟨_, ⟨hout, -⟩ | ⟨-, hlonger, -⟩⟩
    · exact hout
    · omega
  · intro hout
    exact ⟨_, .inl ⟨hout, rfl⟩⟩

end Excerpt

/-! ## Bearers and outcomes -/

/-- A node that is left with a payload by its redaction, and its parent. -/
structure Bearer where
  parent : Node
  node : Node
  payload : Payload

namespace Bearer

/-- Whether the payload is running text directly in a paragraph. -/
def Direct (bearer : Bearer) : Prop :=
  bearer.parent.kind = .paragraph ∧ bearer.node.kind = .str

instance (bearer : Bearer) : Decidable bearer.Direct :=
  inferInstanceAs (Decidable (_ ∧ _))

/-- The node in whose markup any other payload is looked for. -/
def container (bearer : Bearer) : Node :=
  Excerpt.container bearer.parent bearer.node

/-- The text that is looked for there. -/
def needle (bearer : Bearer) : String :=
  Excerpt.needle bearer.node bearer.payload

/-- The steps of the walk for the payload. -/
def steps (bearer : Bearer) : List Step :=
  Trail.extract bearer.parent bearer.node bearer.payload

end Bearer

namespace Event

/-- The entry that tells of a segment. -/
def emitting (placement : Placement) (segment : Segment) : Event :=
  ⟨.trace, "Emitting segment",
    [("mode", .string placement.name),
     ("original", .string segment.markup.debugText),
     ("intermediate", .string segment.content.debugText),
     ("generated_start", .ofNat segment.generated.start)]⟩

/-- The warning of a container whose markup is not as long as its span. -/
def misfitting (container : Node) : Event :=
  ⟨.warn, "Raw markup length does not match its range",
    [("kind", .string container.kind.name),
     ("raw_len", .ofNat container.raw.utf8ByteSize),
     ("range", .string container.range.debugText)]⟩

/-- The warning of a payload that is left out. -/
def skipping : Skip → Event
  | .notFound kind payload =>
    ⟨.warn, "Payload not found in container markup, skipping",
      [("kind", .string kind.name), ("payload", .string payload)]⟩
  | .outside kind range =>
    ⟨.warn, "Payload falls outside its container range, skipping",
      [("kind", .string kind.name), ("range", .string range.debugText)]⟩

end Event

/-- What becomes of a payload: it has a segment, or a reason to be skipped. Before that
comes the container that it is looked for in, if its markup is not as long as its span. -/
structure Outcome where
  misfit : Option Node
  result : Except Skip (Placement × Segment)

namespace Outcome

def segment? (outcome : Outcome) : Option Segment :=
  outcome.result.toOption.map (·.2)

/-- The entries of the log for a payload: a warning of the misfit, if there is one, and
then either the entry for its segment or the warning that it is skipped. -/
def events (outcome : Outcome) : List Event :=
  outcome.misfit.toList.map .misfitting ++
    match outcome.result with
    | .ok (placement, segment) => [.emitting placement segment]
    | .error reason => [.skipping reason]

/-- Which outcome the payload of a bearer has. -/
structure Settles (outcome : Outcome) (bearer : Bearer) : Prop where
  /-- A segment has the text of the payload, and stands in the span of running text or of
  the container. -/
  segment_eq : ∀ placement segment, outcome.result = .ok (placement, segment) →
    segment.text = bearer.payload.text ∧
      if bearer.Direct then
        placement = .direct ∧ segment.markup = bearer.node.range ∧
          segment.content = bearer.node.range
      else placement = .padded ∧ segment.markup = bearer.container.range
  /-- Running text in a paragraph is never skipped. -/
  emits_of_direct : bearer.Direct → outcome.segment?.isSome
  /-- In markup that is as long as its span, a payload is skipped only if it is not
  there. -/
  skips_iff : ¬ bearer.Direct →
    bearer.container.range.start ≤ bearer.container.range.stop →
    bearer.container.raw.utf8ByteSize = bearer.container.range.length →
    (outcome.segment? = none ↔ ¬ bearer.needle.toList <:+: bearer.container.raw.toList)
  /-- The warning of a skipped payload says what is the matter with it. -/
  reason_eq : ∀ reason, outcome.result = .error reason →
    ¬ bearer.needle.toList <:+: bearer.container.raw.toList ∧
        reason = .notFound bearer.container.kind bearer.needle ∨
      bearer.needle.toList <:+: bearer.container.raw.toList ∧
        reason = .outside bearer.container.kind bearer.container.range
  /-- A misfit is the container of a payload that is looked for, and longer or shorter
  than its span. -/
  misfit_iff : ∀ node, outcome.misfit = some node ↔
    ¬ bearer.Direct ∧ node = bearer.container ∧
      bearer.container.raw.utf8ByteSize ≠ bearer.container.range.length

end Outcome

/-! ## One payload -/

/-- The segment that an excerpt becomes behind what is emitted already. -/
def Flattening.segmentOf (flattening : Flattening) (excerpt : Excerpt) : Segment :=
  ⟨excerpt.markup, excerpt.content,
    ⟨flattening.map.generatedLength,
      flattening.map.generatedLength + excerpt.text.utf8ByteSize⟩, excerpt.text⟩

namespace Bearer

open Trail

variable {bearer : Bearer} {flattening : Flattening}

/-- What becomes of the payload behind what is emitted already. -/
def outcome (flattening : Flattening) (bearer : Bearer) : Outcome :=
  if bearer.Direct then
    ⟨none, .ok (.direct, flattening.segmentOf
      ⟨.direct, bearer.node.range, bearer.node.range, bearer.payload.text⟩)⟩
  else
    ⟨if Excerpt.fits bearer.container then none else some bearer.container,
      (Excerpt.locate bearer.container bearer.needle).map fun content =>
        (.padded, flattening.segmentOf
          ⟨.padded, bearer.container.range, content, bearer.payload.text⟩)⟩

theorem steps_of_direct (h : bearer.Direct) :
    bearer.steps =
      [.emit ⟨.direct, bearer.node.range, bearer.node.range, bearer.payload.text⟩] :=
  extract_of_direct h.1 h.2

theorem steps_of_padded (h : ¬ bearer.Direct) :
    bearer.steps = padded bearer.container bearer.needle bearer.payload.text :=
  extract_of_padded h

theorem segment?_outcome_of_padded (h : ¬ bearer.Direct) :
    (bearer.outcome flattening).segment? = none ↔
      ∃ reason, Excerpt.locate bearer.container bearer.needle = .error reason := by
  rw [outcome, if_neg h]
  cases Excerpt.locate bearer.container bearer.needle <;>
    simp [Outcome.segment?, Except.map, Except.toOption]

theorem settles_outcome (flattening : Flattening) (bearer : Bearer) :
    (bearer.outcome flattening).Settles bearer := by
  by_cases hd : bearer.Direct
  · rw [outcome, if_pos hd]
    exact ⟨by simp [hd, Flattening.segmentOf],
      by simp [Outcome.segment?, Except.toOption],
      fun hp => absurd hd hp, nofun, by simp [hd]⟩
  · refine ⟨?_, fun h => absurd h hd, ?_, ?_, ?_⟩
    · intro placement segment hresult
      rw [if_neg hd]
      rw [outcome, if_neg hd] at hresult
      cases hl : Excerpt.locate bearer.container bearer.needle with
      | error reason => simp [hl, Except.map] at hresult
      | ok content =>
        obtain ⟨rfl, rfl⟩ := by simpa [hl, Except.map] using hresult
        exact ⟨rfl, rfl, rfl⟩
    · intro _ hordered hfits
      rw [segment?_outcome_of_padded hd,
        Excerpt.exists_locate_eq_error_iff hordered hfits]
    · intro reason hresult
      rw [outcome, if_neg hd] at hresult
      cases hl : Excerpt.locate bearer.container bearer.needle with
      | ok content => simp [hl, Except.map] at hresult
      | error reason' =>
        obtain rfl := by simpa [hl, Except.map] using hresult
        rcases Excerpt.locate_eq_error_iff.mp hl with hnot | ⟨hin, -, rfl⟩
        · exact .inl hnot
        · exact .inr ⟨hin, rfl⟩
    · intro node
      simp [outcome, hd, Excerpt.fits, eq_comm, and_comm]

/-- The log tells of the outcome. -/
theorem events_steps (flattening : Flattening) (bearer : Bearer) :
    events flattening.map.generatedLength bearer.steps =
      (bearer.outcome flattening).events := by
  by_cases hd : bearer.Direct
  · rw [steps_of_direct hd, outcome, if_pos hd]
    rfl
  · rw [steps_of_padded hd, outcome, if_neg hd, padded]
    cases Excerpt.fits bearer.container <;>
      cases Excerpt.locate bearer.container bearer.needle with
      | ok content => rfl
      | error reason => cases reason <;> rfl

/-- The segments grow by that of the outcome. -/
theorem toList_foldl_emit_steps (flattening : Flattening) (h : bearer.payload.text ≠ "") :
    ((bearer.steps.filterMap excerpt?).foldl Flattening.emit flattening).map.toList =
      flattening.map.toList ++ (bearer.outcome flattening).segment?.toList := by
  by_cases hd : bearer.Direct
  · rw [steps_of_direct hd, outcome, if_pos hd]
    exact Flattening.toList_emit h
  · rw [steps, filterMap_extract_of_padded hd, outcome, if_neg hd, ← container, ← needle]
    cases Excerpt.locate bearer.container bearer.needle with
    | ok content => exact Flattening.toList_emit h
    | error reason => exact (List.append_nil _).symm

end Bearer

/-! ## Payloads in a row -/

namespace Trail

/-- The log of steps in a row. Those of the later ones start where the text of the earlier
ones ends. -/
theorem events_append (flattening : Flattening) (steps more : List Step) :
    events flattening.map.generatedLength (steps ++ more) =
      events flattening.map.generatedLength steps ++
        events ((steps.filterMap excerpt?).foldl Flattening.emit
          flattening).map.generatedLength more := by
  induction steps generalizing flattening with
  | nil => rfl
  | cons step steps ih =>
    cases step with
    | emit excerpt =>
      have hlength : (flattening.emit excerpt).map.generatedLength =
          flattening.map.generatedLength + excerpt.text.utf8ByteSize :=
        SourceMap.generatedLength_push ..
      have hrest := ih (flattening.emit excerpt)
      rw [hlength] at hrest
      exact congrArg (_ :: ·) hrest
    | misfit container => exact congrArg (_ :: ·) (ih flattening)
    | skip reason => cases reason <;> exact congrArg (_ :: ·) (ih flattening)
    | _ => exact ih flattening

/-- The steps of a trail that are no questions. -/
def findings (steps : List Step) : List Step :=
  steps.filter fun step => (consultation? step).isNone

theorem findings_consult (parent node : Node) (steps : List Step) :
    findings (.consult parent node :: steps) = findings steps := rfl

/-- Questions are not told of in the log. -/
theorem events_findings (emitted : Nat) (steps : List Step) :
    events emitted (findings steps) = events emitted steps := by
  induction steps generalizing emitted with
  | nil => rfl
  | cons step steps ih =>
    cases step with
    | emit excerpt => exact congrArg (_ :: ·) (ih _)
    | misfit container => exact congrArg (_ :: ·) (ih _)
    | skip reason => cases reason <;> exact congrArg (_ :: ·) (ih _)
    | _ => exact ih _

theorem filterMap_findings (steps : List Step) :
    (findings steps).filterMap excerpt? = steps.filterMap excerpt? := by
  rw [findings, List.filterMap_filter]
  congr 1
  funext step
  cases step <;> rfl

end Trail

/-- The walk settles payloads one after the other. -/
theorem Bearer.exists_outcomes (bearers : List Bearer)
    (h : ∀ bearer ∈ bearers, bearer.payload.text ≠ "") (flattening : Flattening) :
    ∃ outcomes : List Outcome, List.Forall₂ (fun bearer outcome => outcome.Settles bearer)
        bearers outcomes ∧
      Trail.events flattening.map.generatedLength (bearers.flatMap steps) =
        outcomes.flatMap Outcome.events ∧
      (((bearers.flatMap steps).filterMap Trail.excerpt?).foldl Flattening.emit
          flattening).map.toList =
        flattening.map.toList ++ outcomes.filterMap Outcome.segment? := by
  induction bearers generalizing flattening with
  | nil => exact ⟨[], .nil, rfl, (List.append_nil _).symm⟩
  | cons bearer rest ih =>
    obtain ⟨outcomes, hsettles, hevents, hsegments⟩ :=
      ih (fun bearer hbearer => h bearer (List.mem_cons_of_mem _ hbearer))
        ((bearer.steps.filterMap Trail.excerpt?).foldl Flattening.emit flattening)
    refine ⟨bearer.outcome flattening :: outcomes,
      .cons (settles_outcome _ _) hsettles, ?_, ?_⟩
    · rw [List.flatMap_cons, List.flatMap_cons, Trail.events_append, events_steps,
        hevents]
    · rw [List.flatMap_cons, List.filterMap_append, List.foldl_append, hsegments,
        toList_foldl_emit_steps flattening (h bearer List.mem_cons_self),
        List.append_assoc, List.filterMap_eq_flatMap_toList,
        List.filterMap_eq_flatMap_toList, List.flatMap_cons]

/-! ## The payloads of a tree -/

namespace Redactor

variable {redactor : Redactor} {parent node redacted : Node} {payload : Payload}

/-- A node and its parent as a bearer, if the node is left with a payload by its
redaction. -/
def bearer? (redactor : Redactor) (parent node : Node) : Option Bearer :=
  match redactor.redact parent node with
  | .ok redacted => redacted.payload.map (⟨parent, node, ·⟩)
  | .error _ => none

/-- The bearers of a tree, in the order in which they are visited. -/
def bearers (redactor : Redactor) (root : Node) : List Bearer :=
  (redactor.visits root).filterMap fun place => redactor.bearer? place.parent place.node

theorem bearer?_of_payload (h : redactor.redact parent node = .ok redacted)
    (hp : redacted.payload = some payload) :
    redactor.bearer? parent node = some ⟨parent, node, payload⟩ := by
  simp [bearer?, h, hp]

theorem bearer?_of_no_payload (h : redactor.redact parent node = .ok redacted)
    (hp : redacted.payload = none) : redactor.bearer? parent node = none := by
  simp [bearer?, h, hp]

theorem text_ne_of_mem_bearers {root : Node} {bearer : Bearer}
    (h : bearer ∈ redactor.bearers root) : bearer.payload.text ≠ "" := by
  obtain ⟨place, -, hplace⟩ := List.mem_filterMap.mp h
  rw [bearer?] at hplace
  split at hplace
  · obtain ⟨payload, hp, rfl⟩ := Option.map_eq_some_iff.mp hplace
    exact (Node.text?_of_payload hp).2
  · cases hplace

end Redactor

namespace Trail

variable {redactor : Redactor} {parent node : Node}

/-- Where nothing is refused, a walk takes the payloads out of the bearers that it asks
about. -/
theorem findings_walk (h : ∀ step ∈ walk redactor parent node, refusal? step = none) :
    findings (walk redactor parent node) =
      ((walk redactor parent node).filterMap consultation?).flatMap fun asked =>
        (redactor.bearer? asked.1 asked.2).toList.flatMap Bearer.steps := by
  induction node using Node.induction_on_children generalizing parent with
  | step node ih =>
    obtain ⟨redacted, hr, hchildren⟩ := redact_of_walk h
    cases hp : redacted.payload with
    | some payload =>
      have hnot : ¬ redactor.empties parent node = true := by
        simp [Redactor.empties, hr, hp]
      have hfindings :
          findings (extract parent node payload) = extract parent node payload := by
        rw [findings, List.filter_eq_self]
        intro step hstep
        simp [consultation?_of_mem_extract hstep]
      rw [consultations_walk_of_not_empties hnot, walk_of_payload hr hp, findings_consult,
        hfindings]
      simp [Redactor.bearer?_of_payload hr hp, Bearer.steps]
    | none =>
      have hempties : redactor.empties parent node = true := by
        simp [Redactor.empties, hr, hp]
      rw [consultations_walk_of_empties hempties, List.flatMap_cons,
        Redactor.bearer?_of_no_payload hr hp, List.flatMap_assoc,
        walk_of_no_payload hr hp, walkAll_eq_flatMap, findings_consult, findings,
        List.filter_flatMap]
      exact List.flatMap_congr fun child hchild =>
        ih child hchild (hchildren hp child hchild)

/-- The walk through a tree takes the payloads out of its bearers. -/
theorem findings_walkAll {root : Node}
    (h : ∀ step ∈ walkAll redactor root root.children, refusal? step = none) :
    findings (walkAll redactor root root.children) =
      (redactor.bearers root).flatMap Bearer.steps := by
  have hasked := consultations_walkAll redactor root
  rw [walkAll_eq_flatMap] at hasked ⊢
  calc findings (root.children.flatMap (walk redactor root))
      = root.children.flatMap fun node => findings (walk redactor root node) :=
        List.filter_flatMap
    _ = ((root.children.flatMap (walk redactor root)).filterMap consultation?).flatMap
          fun asked =>
            (redactor.bearer? asked.1 asked.2).toList.flatMap Bearer.steps := by
        rw [List.filterMap_flatMap, List.flatMap_assoc]
        exact List.flatMap_congr fun node hnode => findings_walk (walk_of_walkAll h hnode)
    _ = (redactor.bearers root).flatMap Bearer.steps := by
        rw [hasked, List.flatMap_map, Redactor.bearers, List.filterMap_eq_flatMap_toList,
          List.flatMap_assoc]

end Trail

namespace Flattening

open Trail

/-- Every payload that is visited is settled, in the order of the visits: the segments are
those of the outcomes, and the log tells of the outcomes and, when a projection is built,
of nothing else that is a trace or a warning. -/
theorem outcomes_of_payloads {redactor : Redactor} {root : Node} {flattening : Flattening}
    (h : ofRedacted redactor root = .ok flattening) :
    ∃ outcomes : List Outcome,
      List.Forall₂ (fun bearer outcome => outcome.Settles bearer) (redactor.bearers root)
        outcomes ∧
      flattening.map.toList = outcomes.filterMap Outcome.segment? ∧
      events 0 (Trail.ofRoot redactor root) = outcomes.flatMap Outcome.events ∧
      ∀ options : Projection.Options, options.activeRedactor = redactor →
        ∃ closing, Projection.events root options =
          outcomes.flatMap Outcome.events ++ closing ∧
          ∀ event ∈ closing, event.level = .debug := by
  obtain ⟨hok, hflattening⟩ := ofRedacted_eq_ok_iff.mp h
  obtain ⟨outcomes, hsettles, hevents, hsegments⟩ := Bearer.exists_outcomes
    (redactor.bearers root) (fun _ => Redactor.text_ne_of_mem_bearers) empty
  rw [← findings_walkAll hok, filterMap_findings, ← excerpts, hflattening] at hsegments
  rw [← findings_walkAll hok, events_findings, ← trail_of_ok h] at hevents
  refine ⟨outcomes, hsettles, hsegments, hevents, ?_⟩
  rintro options rfl
  refine ⟨Projection.closingEvents root options flattening, ?_, ?_⟩
  · rw [← hevents, Projection.events, h]
    rfl
  · intro event hevent
    rw [Projection.closingEvents, List.mem_append] at hevent
    rcases hevent with hevent | hevent
    · split at hevent
      · cases hevent
      · rw [List.mem_singleton.mp hevent]
    · rw [List.mem_singleton.mp hevent]

/-- A paragraph with running text, strong text that does not have the letter it should,
and a code span whose markup is shorter than its span. -/
def uneven : Node :=
  { Node.spanning .paragraph "a**b**`c`  " ⟨0, 11⟩ with
    children :=
      [{ Node.spanning .str "a**b**`c`  " ⟨0, 1⟩ with value := some "a" },
       { Node.spanning .strong "a**b**`c`  " ⟨1, 6⟩ with
        children :=
          [{ Node.spanning .str "a**b**`c`  " ⟨3, 4⟩ with value := some "x" }] },
       { Node.spanning .code "a**b**`c`  " ⟨6, 9⟩ with
        value := some "c", range := ⟨6, 11⟩ }] }

/-- The strong text is skipped, and the code span is emitted after a warning. -/
theorem outcomes_of_payloads_uneven :
    ∃ flattening, ofRedacted .keep uneven = .ok flattening ∧
      flattening.map.toList =
        [⟨⟨0, 1⟩, ⟨0, 1⟩, ⟨0, 1⟩, "a"⟩, ⟨⟨6, 11⟩, ⟨7, 10⟩, ⟨1, 2⟩, "c"⟩] ∧
      (Redactor.keep.bearers uneven).map (·.payload.text) = ["a", "x", "c"] ∧
      ∃ outcomes : List Outcome,
        List.Forall₂ (fun bearer outcome => outcome.Settles bearer)
          (Redactor.keep.bearers uneven) outcomes ∧
        flattening.map.toList = outcomes.filterMap Outcome.segment? ∧
        events 0 (Trail.ofRoot .keep uneven) = outcomes.flatMap Outcome.events := by
  obtain ⟨outcomes, hsettles, hsegments, hevents, -⟩ :=
    @outcomes_of_payloads .keep uneven _ rfl
  exact ⟨_, rfl, by decide, by decide, outcomes, hsettles, hsegments, hevents⟩

end Flattening

end ProseMap
