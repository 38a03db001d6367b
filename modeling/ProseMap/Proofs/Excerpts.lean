import ProseMap.Proofs.Trees
import ProseMap.Trail

/-!
# Excerpts

Where an excerpt stands: `locate_eq_ok_iff` says which span a search in a container
answers with, and `emit_mem_extract_iff` which excerpt a leaf yields. From both follow the
place of every excerpt in its markup, its width, and what the source has there. -/

namespace ProseMap

namespace Excerpt

/-! ## The span of an occurrence -/

/-- An occurrence ends inside the markup. -/
theorem left_le_of_find? {container : Node} {needle : String} {left : Nat}
    (h : find? needle.toList container.raw.toList = some left) :
    left + needle.utf8ByteSize ≤ container.raw.utf8ByteSize := by
  obtain ⟨before, after, hcs, hb, hlength⟩ :=
    Text.slice?_eq_some_iff.mp (Excerpt.slice?_of_find? h)
  have hraw := congrArg Text.byteLength hcs
  simp only [Text.byteLength_append, Text.byteLength_toList] at hraw hlength
  omega

/-- A located span starts at the occurrence and keeps the bytes that follow it in the
markup between its end and the container's. -/
theorem locate_eq_ok_iff {container : Node} {needle : String} {content : Span} :
    locate container needle = .ok content ↔
      ∃ left, find? needle.toList container.raw.toList = some left ∧
        content.start = container.range.start + left ∧ content.start ≤ content.stop ∧
        content.stop + container.raw.utf8ByteSize =
          container.range.stop + left + needle.utf8ByteSize := by
  unfold locate
  cases hf : find? needle.toList container.raw.toList with
  | none => simp
  | some left =>
    have hle := left_le_of_find? hf
    simp only [Option.some.injEq]
    split
    · rename_i hin
      constructor
      · intro h
        cases h
        exact ⟨left, rfl, rfl, by dsimp only; omega, by dsimp only; omega⟩
      · rintro ⟨_, rfl, hstart, -, hstop⟩
        cases content
        simp only at hstart hstop
        simp only [Except.ok.injEq, Span.mk.injEq]
        omega
    · rename_i hout
      -- the span is too short for the markup around the occurrence
      constructor
      · intro h
        cases h
      · rintro ⟨_, rfl, hstart, hle', hstop⟩
        exact absurd (by omega) hout

/-- Whatever the markup is, a located span lies in the container's. -/
theorem contains_of_locate {container : Node} {needle : String} {content : Span}
    (h : locate container needle = .ok content) :
    container.range.contains content = true := by
  obtain ⟨left, hf, hstart, _, hstop⟩ := locate_eq_ok_iff.mp h
  have hle := left_le_of_find? hf
  rw [Span.contains_iff]
  omega

/-- In markup that is as long as its span, a located span is as long as what was looked
for. -/
theorem stop_of_locate {container : Node} {needle : String} {content : Span}
    (hm : container.range.start + container.raw.utf8ByteSize = container.range.stop)
    (h : locate container needle = .ok content) :
    content.stop = content.start + needle.utf8ByteSize := by
  obtain ⟨left, _, hstart, _, hstop⟩ := locate_eq_ok_iff.mp h
  omega

/-- In markup that is cut out of a source, the source has at a located span what was
looked for. -/
theorem slice?_of_locate {source : String} {container : Node} {needle : String}
    {content : Span} (hc : container.range.slice? source = some container.raw)
    (h : locate container needle = .ok content) :
    content.slice? source = some needle := by
  obtain ⟨left, hf, hstart, _, _⟩ := locate_eq_ok_iff.mp h
  have hstop := stop_of_locate (Span.length_of_slice? hc) h
  have hin := Text.slice?_trans (Span.slice?_eq_some_iff.mp hc)
    (Excerpt.slice?_of_find? hf)
  rw [Span.slice?_eq_some_iff, hstop, hstart, ← Text.byteLength_toList, Nat.add_assoc]
  exact hin

/-- An unredacted payload is looked for as it is. -/
theorem needle_of_payload {node : Node} {payload : Payload}
    (h : node.payload = some payload) :
    needle node payload = payload.text := by
  rw [needle, h]
  exact if_pos rfl

/-- The node in whose markup a payload is looked for. -/
def container (parent node : Node) : Node :=
  if parent.kind = .paragraph then node else parent

end Excerpt

namespace Trail

/-! ## What a leaf yields -/

theorem mem_padded_iff {container : Node} {needle text : String} {step : Step} :
    step ∈ padded container needle text ↔
      (Excerpt.fits container = false ∧ step = .misfit container) ∨
      (∃ content, Excerpt.locate container needle = .ok content ∧
        step = .emit ⟨.padded, container.range, content, text⟩) ∨
      ∃ reason, Excerpt.locate container needle = .error reason ∧
        step = .skip reason := by
  rw [padded, List.mem_append]
  refine or_congr ?_ ?_
  · cases Excerpt.fits container <;> simp
  · cases Excerpt.locate container needle <;> simp

theorem extract_of_direct {parent node : Node} {payload : Payload}
    (hp : parent.kind = .paragraph) (hn : node.kind = .str) :
    extract parent node payload =
      [.emit ⟨.direct, node.range, node.range, payload.text⟩] := by
  rw [extract, hp, hn]

theorem extract_of_padded {parent node : Node} {payload : Payload}
    (h : ¬ (parent.kind = .paragraph ∧ node.kind = .str)) :
    extract parent node payload =
      padded (Excerpt.container parent node) (Excerpt.needle node payload)
        payload.text := by
  rw [extract, Excerpt.container]
  split
  · rename_i hp hn
    exact absurd ⟨hp, hn⟩ h
  · rename_i hp _
    rw [if_pos hp]
  · rename_i hp _
    rw [if_neg hp]

/-- The excerpt of a leaf is its payload, either in the span of the running text or at the
place where the search finds it. -/
theorem emit_mem_extract_iff {parent node : Node} {payload : Payload}
    {excerpt : Excerpt} :
    Step.emit excerpt ∈ extract parent node payload ↔
      (parent.kind = .paragraph ∧ node.kind = .str ∧
        excerpt = ⟨.direct, node.range, node.range, payload.text⟩) ∨
      ¬ (parent.kind = .paragraph ∧ node.kind = .str) ∧ ∃ content,
        Excerpt.locate (Excerpt.container parent node) (Excerpt.needle node payload) =
          .ok content ∧
        excerpt = ⟨.padded, (Excerpt.container parent node).range, content,
          payload.text⟩ := by
  by_cases hd : parent.kind = .paragraph ∧ node.kind = .str
  · rw [extract_of_direct hd.1 hd.2]
    simp [hd]
  · rw [extract_of_padded hd, mem_padded_iff]
    simp only [reduceCtorEq, and_false, exists_false, false_or, or_false, Step.emit.injEq,
      hd, not_false_eq_true, true_and]
    constructor
    · exact .inr
    · intro h
      rcases h with ⟨hp, hn, -⟩ | h
      · exact absurd ⟨hp, hn⟩ hd
      · exact h

/-- Taking a payload out of a leaf is to emit it or to skip it, after a warning if the
markup does not fit. -/
theorem forall_mem_extract {motive : Step → Prop} {parent node : Node} {payload : Payload}
    (emit : ∀ excerpt, motive (.emit excerpt)) (skip : ∀ reason, motive (.skip reason))
    (misfit : ∀ container, motive (.misfit container)) :
    ∀ step ∈ extract parent node payload, motive step := by
  intro step h
  by_cases hd : parent.kind = .paragraph ∧ node.kind = .str
  · rw [extract_of_direct hd.1 hd.2, List.mem_singleton] at h
    rw [h]
    exact emit _
  · rw [extract_of_padded hd] at h
    rcases mem_padded_iff.mp h with ⟨-, rfl⟩ | ⟨content, -, rfl⟩ | ⟨reason, -, rfl⟩
    · exact misfit _
    · exact emit _
    · exact skip reason

/-- So it never refuses. -/
theorem refusal?_of_mem_extract {parent node : Node} {payload : Payload} {step : Step}
    (h : step ∈ extract parent node payload) : refusal? step = none :=
  forall_mem_extract (motive := (refusal? · = none))
    (fun _ => rfl) (fun _ => rfl) (fun _ => rfl) step h

/-- It asks nothing either. -/
theorem consultation?_of_mem_extract {parent node : Node} {payload : Payload}
    {step : Step} (h : step ∈ extract parent node payload) :
    consultation? step = none :=
  forall_mem_extract (motive := (consultation? · = none))
    (fun _ => rfl) (fun _ => rfl) (fun _ => rfl) step h

/-- The text of an excerpt is the payload. -/
theorem text_of_emit_mem_extract {parent node : Node} {payload : Payload}
    {excerpt : Excerpt} (h : Step.emit excerpt ∈ extract parent node payload) :
    excerpt.text = payload.text := by
  rcases emit_mem_extract_iff.mp h with ⟨-, -, rfl⟩ | ⟨-, _, -, rfl⟩ <;> rfl

/-- An excerpt stands inside its markup. -/
theorem contains_of_emit_mem_extract {parent node : Node} {payload : Payload}
    {excerpt : Excerpt} (h : Step.emit excerpt ∈ extract parent node payload) :
    excerpt.markup.contains excerpt.content = true := by
  rcases emit_mem_extract_iff.mp h with ⟨-, -, rfl⟩ | ⟨-, content, hl, rfl⟩
  · exact Span.contains_refl node.range
  · exact Excerpt.contains_of_locate hl

/-- The markup of an excerpt is its container's. -/
theorem markup_of_emit_mem_extract {parent node : Node} {payload : Payload}
    {excerpt : Excerpt} (h : Step.emit excerpt ∈ extract parent node payload) :
    excerpt.markup = (Excerpt.container parent node).range := by
  rcases emit_mem_extract_iff.mp h with ⟨hp, -, rfl⟩ | ⟨-, content, -, rfl⟩
  · rw [Excerpt.container, if_pos hp]
  · rfl

theorem filterMap_extract_of_direct {parent node : Node} {payload : Payload}
    (hp : parent.kind = .paragraph) (hn : node.kind = .str) :
    (extract parent node payload).filterMap excerpt? =
      [⟨.direct, node.range, node.range, payload.text⟩] := by
  rw [extract_of_direct hp hn]
  rfl

theorem filterMap_extract_of_padded {parent node : Node} {payload : Payload}
    (h : ¬ (parent.kind = .paragraph ∧ node.kind = .str)) :
    (extract parent node payload).filterMap excerpt? =
      match Excerpt.locate (Excerpt.container parent node)
        (Excerpt.needle node payload) with
      | .ok content =>
        [⟨.padded, (Excerpt.container parent node).range, content, payload.text⟩]
      | .error _ => [] := by
  rw [extract_of_padded h, padded, List.filterMap_append]
  cases Excerpt.fits (Excerpt.container parent node) <;>
    cases Excerpt.locate (Excerpt.container parent node)
      (Excerpt.needle node payload) <;> rfl

/-- A leaf yields at most one excerpt. -/
theorem filterMap_extract (parent node : Node) (payload : Payload) :
    ∃ excerpt : Option Excerpt,
      (extract parent node payload).filterMap excerpt? = excerpt.toList := by
  by_cases hd : parent.kind = .paragraph ∧ node.kind = .str
  · rw [filterMap_extract_of_direct hd.1 hd.2]
    exact ⟨some _, rfl⟩
  · rw [filterMap_extract_of_padded hd]
    cases Excerpt.locate (Excerpt.container parent node)
      (Excerpt.needle node payload) with
    | error reason => exact ⟨none, rfl⟩
    | ok content => exact ⟨some _, rfl⟩

end Trail

end ProseMap
