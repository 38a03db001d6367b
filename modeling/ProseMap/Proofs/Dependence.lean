import ProseMap.Proofs.Parts

/-!
# What a flattening depends on

A tree has much in it that its flattening does not show: what stands below a node with
text of its own, the markup of a node whose text is looked for in its parent, the texts of
the root. Two trees that differ only in such things are flattened to the same. The two
walks go in step; `runs_of_akin` is the induction. -/

namespace ProseMap

namespace Node

/-! ## Nodes that are looked at alike -/

/-- The two nodes have a payload, and it is the same. -/
def SharePayload (a b : Node) : Prop :=
  ∃ payload, a.payload = some payload ∧ b.payload = some payload

/-- The node has a value or a caption that is not empty, whatever its children are. -/
def Speaks (node : Node) : Prop :=
  (∃ text ∈ node.value, text ≠ "") ∨ ∃ text ∈ node.alt, text ≠ ""

/-- Two nodes, each the child of a node of kind `above`, that have the same texts and are
alike in everything that is looked at. -/
structure LooksLike (above : Kind) (a b : Node) : Prop where
  value : a.value = b.value
  alt : a.alt = b.alt
  title : a.title = b.title
  /-- Outside a paragraph it is the parent in which a payload is looked for. -/
  kind : a.kind = b.kind ∨ SharePayload a b ∧ above ≠ .paragraph
  range : a.range = b.range ∨ SharePayload a b ∧ above ≠ .paragraph
  /-- Running text stands in its span, and nothing is looked for in its markup. -/
  raw : a.raw = b.raw ∨ SharePayload a b ∧ (above ≠ .paragraph ∨ a.kind = .str)

mutual

/-- Two trees below a node of kind `above` that differ only in what is not looked at. -/
inductive Akin : (above : Kind) → (a b : Node) → Prop
  /-- The children of a node that speaks for itself may be any. -/
  | speaking {above : Kind} {a b : Node} (looks : LooksLike above a b)
      (speaks : a.Speaks) : Akin above a b
  | inner {above : Kind} {a b : Node} (looks : LooksLike above a b)
    (children : AkinAll a.kind a.children b.children) : Akin above a b

/-- Akin trees pair by pair. -/
inductive AkinAll : (above : Kind) → (as bs : List Node) → Prop
  | nil {above : Kind} : AkinAll above [] []
  | cons {above : Kind} {a b : Node} {as bs : List Node} (head : Akin above a b)
    (tail : AkinAll above as bs) : AkinAll above (a :: as) (b :: bs)

end

/-- Two whole trees that differ only in what is not looked at, which at a root are all its
texts. -/
structure AkinRoots (a b : Node) : Prop where
  kind : a.kind = b.kind
  range : a.range = b.range
  raw : a.raw = b.raw
  children : AkinAll a.kind a.children b.children

variable {above : Kind} {a b : Node}

theorem AkinAll.forall₂ {as bs : List Node} (h : AkinAll above as bs) :
    List.Forall₂ (Akin above) as bs := by
  induction as generalizing bs with
  | nil =>
    cases h
    exact .nil
  | cons a as ih =>
    cases h with
    | cons head tail => exact .cons head (ih tail)

theorem AkinAll.isEmpty_eq {as bs : List Node} (h : AkinAll above as bs) :
    as.isEmpty = bs.isEmpty := by
  cases h <;> rfl

theorem Akin.looksLike (h : Akin above a b) : LooksLike above a b := by
  cases h with
  | speaking looks _ => exact looks
  | inner looks _ => exact looks

/-! ## Payloads -/

/-- What a node says for itself does not depend on its children. -/
theorem sharePayload_of_speaks (h : a.Speaks) (hvalue : a.value = b.value)
    (halt : a.alt = b.alt) :
    SharePayload a b := by
  have exists_of_text (field : TextField) {text : Option String}
      (h : ∃ t ∈ text, t ≠ "") :
      ∃ payload, Payload.of? field text = some payload := by
    obtain ⟨t, ht, hne⟩ := h
    exact ⟨⟨field, t⟩, Payload.of?_eq_some_iff.mpr ⟨rfl, ht, hne⟩⟩
  have hown : ∃ payload,
      (Payload.of? .value a.value).or (Payload.of? .alt a.alt) = some payload := by
    rcases h with h | h
    · obtain ⟨payload, hpayload⟩ := exists_of_text .value h
      exact ⟨payload, by rw [hpayload, Option.some_or]⟩
    · obtain ⟨payload, hpayload⟩ := exists_of_text .alt h
      rw [hpayload]
      cases Payload.of? .value a.value with
      | none => exact ⟨payload, rfl⟩
      | some first => exact ⟨first, rfl⟩
  obtain ⟨payload, hpayload⟩ := hown
  refine ⟨payload, ?_, ?_⟩
  · rw [Node.payload, ← Option.or_assoc, hpayload, Option.some_or]
  · rw [Node.payload, ← Option.or_assoc, ← hvalue, ← halt, hpayload, Option.some_or]

/-- Akin trees have the same payload at the top. -/
theorem Akin.payload_eq (h : Akin above a b) : a.payload = b.payload := by
  obtain ⟨hvalue, halt, htitle, -, -, -⟩ := h.looksLike
  cases h with
  | speaking _ speaks =>
    obtain ⟨payload, ha, hb⟩ := sharePayload_of_speaks speaks hvalue halt
    rw [ha, hb]
  | inner _ children =>
    refine payload_congr hvalue halt htitle ?_
    rw [hasChildren, hasChildren, children.isEmpty_eq]

/-- Where there is no payload, akin trees differ in nothing at the top. -/
theorem Akin.alike_of_no_payload (h : Akin above a b) (hp : a.payload = none) :
    a.Alike b ∧ List.Forall₂ (Akin a.kind) a.children b.children := by
  have hno : ¬ SharePayload a b := by
    intro ⟨payload, ha, _⟩
    rw [hp] at ha
    cases ha
  have hlooks := h.looksLike
  have halike : a.Alike b :=
    ⟨hlooks.kind.resolve_right fun h => hno h.1,
      hlooks.range.resolve_right fun h => hno h.1,
      hlooks.raw.resolve_right fun h => hno h.1⟩
  cases h with
  | speaking _ speaks =>
    exact absurd (sharePayload_of_speaks speaks hlooks.value hlooks.alt) hno
  | inner _ children => exact ⟨halike, children.forall₂⟩

end Node

/-! ## Walks in step -/

namespace Trail

variable {parent parent' a b : Node}

/-- Nodes that look alike in a paragraph are of one kind and have one span. -/
theorem eq_of_looksLike_in_paragraph (h : Node.LooksLike parent.kind a b)
    (hk : parent.kind = .paragraph) : a.kind = b.kind ∧ a.range = b.range :=
  ⟨h.kind.resolve_right fun hdiffer => hdiffer.2 hk,
    h.range.resolve_right fun hdiffer => hdiffer.2 hk⟩

/-- The containers of nodes that look alike are searched alike. -/
theorem alike_container_of_looksLike (hparent : parent.Alike parent')
    (h : Node.LooksLike parent.kind a b)
    (hd : ¬ (parent.kind = .paragraph ∧ a.kind = .str)) :
    (Excerpt.container parent a).Alike (Excerpt.container parent' b) := by
  by_cases hk : parent.kind = .paragraph
  · -- in a paragraph the container is the node itself
    obtain ⟨hkind, hrange⟩ := eq_of_looksLike_in_paragraph h hk
    have hraw : a.raw = b.raw := by
      rcases h.raw with hraw | ⟨-, hdiffer | hdiffer⟩
      · exact hraw
      · exact absurd hk hdiffer
      · exact absurd ⟨hk, hdiffer⟩ hd
    exact Excerpt.alike_container hparent ⟨hkind, hrange, hraw⟩
  · rw [Excerpt.container, Excerpt.container, if_neg hk, if_neg (hparent.kind ▸ hk)]
    exact hparent

/-- The same payload is taken out of nodes that look alike at the same place. -/
theorem filterMap_extract_of_looksLike (hparent : parent.Alike parent')
    (h : Node.LooksLike parent.kind a b) {payload : Payload}
    (ha : a.payload = some payload) (hb : b.payload = some payload) :
    (extract parent a payload).filterMap excerpt? =
      (extract parent' b payload).filterMap excerpt? := by
  by_cases hd : parent.kind = .paragraph ∧ a.kind = .str
  · obtain ⟨hk, hstr⟩ := hd
    obtain ⟨hkind, hrange⟩ := eq_of_looksLike_in_paragraph h hk
    rw [filterMap_extract_of_direct hk hstr,
      filterMap_extract_of_direct (hparent.kind ▸ hk) (hkind ▸ hstr), hrange]
  · have hd' : ¬ (parent'.kind = .paragraph ∧ b.kind = .str) := by
      intro ⟨hk', hstr'⟩
      have hk : parent.kind = .paragraph := hparent.kind.trans hk'
      exact hd ⟨hk, (eq_of_looksLike_in_paragraph h hk).1.trans hstr'⟩
    have hcontainer := alike_container_of_looksLike hparent h hd
    rw [filterMap_extract_of_padded hd, filterMap_extract_of_padded hd',
      Excerpt.needle_of_payload ha, Excerpt.needle_of_payload hb,
      Excerpt.locate_congr hcontainer, hcontainer.range]

/-- Lists aligned element by element make the same if aligned elements do. -/
theorem flatMap_eq_of_forall₂ {α β γ : Type} {R : α → β → Prop} {f : α → List γ}
    {g : β → List γ} {as : List α} {bs : List β} (h : List.Forall₂ R as bs)
    (hfg : ∀ a ∈ as, ∀ b, R a b → f a = g b) : as.flatMap f = bs.flatMap g := by
  induction h with
  | nil => rfl
  | @cons a b as bs hab _ ih =>
    rw [List.flatMap_cons, List.flatMap_cons, hfg a List.mem_cons_self b hab,
      ih fun a ha => hfg a (List.mem_cons_of_mem _ ha)]

/-- Akin trees emit the same. -/
theorem runs_of_akin (hparent : parent.Alike parent') (h : Node.Akin parent.kind a b) :
    runs .keep parent a = runs .keep parent' b := by
  induction a using Node.induction_on_children generalizing parent parent' b with
  | step a ih =>
    cases ha : a.payload with
    | some payload =>
      have hb : b.payload = some payload := h.payload_eq ▸ ha
      rw [runs_of_payload rfl ha, runs_of_payload rfl hb,
        filterMap_extract_of_looksLike hparent h.looksLike ha hb]
    | none =>
      have hb : b.payload = none := h.payload_eq ▸ ha
      obtain ⟨halike, hchildren⟩ := h.alike_of_no_payload ha
      rw [runs_of_no_payload rfl ha, runs_of_no_payload rfl hb, excerpts_eq_flatMap,
        excerpts_eq_flatMap]
      exact flatMap_eq_of_forall₂ hchildren fun child hchild _ => ih child hchild halike

end Trail

namespace Flattening

open Trail

/-- Trees that differ only in what is not looked at are flattened to the same text and to
the same segments. -/
theorem ofRoot_eq_of_akinRoots {a b : Node} (h : a.AkinRoots b) :
    (ofRoot a).text = (ofRoot b).text ∧ (ofRoot a).map = (ofRoot b).map := by
  have halike : a.Alike b := ⟨h.kind, h.range, h.raw⟩
  have hexcerpts : excerpts .keep a a.children = excerpts .keep b b.children := by
    rw [excerpts_eq_flatMap, excerpts_eq_flatMap]
    exact flatMap_eq_of_forall₂ h.children.forall₂ fun _ _ _ => runs_of_akin halike
  rw [ofRoot_eq, ofRoot_eq, hexcerpts]
  exact ⟨rfl, rfl⟩

/-- The sample document with another title, other markup of the running text, something
inside the code span, and a strong text of another kind that claims to stand elsewhere. -/
def disguised : Node :=
  { Node.spanning .document Node.sampleSource ⟨0, 10⟩ with
    title := some "t"
    children :=
      [{ Node.spanning .paragraph Node.sampleSource ⟨0, 10⟩ with
        children :=
          [{ kind := .str, range := ⟨0, 2⟩, raw := "?", value := some "é" },
           { Node.spanning .code Node.sampleSource ⟨2, 5⟩ with
            value := some "x", children := [.sample] },
           { Node.spanning .strong Node.sampleSource ⟨5, 10⟩ with
            children :=
              [{ kind := .image, range := ⟨90, 80⟩, raw := "",
                 value := some "b" }] }] }] }

theorem akinRoots_disguised : Node.sample.AkinRoots disguised := by
  refine ⟨rfl, rfl, rfl,
    .cons (.inner ⟨rfl, rfl, rfl, .inl rfl, .inl rfl, .inl rfl⟩ ?_) .nil⟩
  refine .cons ?running (.cons ?code (.cons ?strong .nil))
  case running =>
    refine .inner ⟨rfl, rfl, rfl, .inl rfl, .inl rfl, .inr ⟨?share, .inr rfl⟩⟩ .nil
    exact ⟨⟨.value, "é"⟩, rfl, rfl⟩
  case code =>
    exact .speaking ⟨rfl, rfl, rfl, .inl rfl, .inl rfl, .inl rfl⟩
      (.inl ⟨"x", rfl, by decide⟩)
  case strong =>
    refine .inner ⟨rfl, rfl, rfl, .inl rfl, .inl rfl, .inl rfl⟩ (.cons ?_ .nil)
    have hout : Kind.strong ≠ .paragraph := by decide
    refine .inner ⟨rfl, rfl, rfl, .inr ⟨?same, hout⟩, .inr ⟨?same, hout⟩,
      .inr ⟨?same, .inl hout⟩⟩ .nil
    exact ⟨⟨.value, "b"⟩, rfl, rfl⟩

/-- The disguise changes neither the text nor a segment. -/
theorem ofRoot_eq_of_akinRoots_disguised :
    Node.sample.AkinRoots disguised ∧ (ofRoot disguised).text = "éxb" ∧
      (ofRoot .sample).map = (ofRoot disguised).map :=
  ⟨akinRoots_disguised, by decide, (ofRoot_eq_of_akinRoots akinRoots_disguised).2⟩

end Flattening

end ProseMap
