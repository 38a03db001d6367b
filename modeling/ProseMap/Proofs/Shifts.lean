import ProseMap.Proofs.Tiling

/-!
# Shifts

A document that stands further behind in its source is the same document. The walk takes
the same steps with every span in them moved (`walk_shift`), the text does not change, and
lookups answer with moved offsets. -/

namespace ProseMap

/-! ## Moved documents -/

namespace Node

mutual

/-- The tree with every span in it moved by `distance` bytes. -/
def shift (distance : Nat) : Node → Node
  | ⟨kind, value, alt, title, children, range, raw⟩ =>
    { kind, value, alt, title, raw
      children := shiftAll distance children
      range := range.shift distance }

def shiftAll (distance : Nat) : List Node → List Node
  | [] => []
  | node :: rest => shift distance node :: shiftAll distance rest

end

theorem shiftAll_eq_map (distance : Nat) (nodes : List Node) :
    shiftAll distance nodes = nodes.map (shift distance) := by
  induction nodes with
  | nil => rfl
  | cons node rest ih => rw [shiftAll, ih, List.map_cons]

theorem shift_eq (distance : Nat) (node : Node) :
    node.shift distance =
      { node with
        children := node.children.map (shift distance)
        range := node.range.shift distance } := by
  cases node
  rw [shift, shiftAll_eq_map]

variable (distance : Nat) (node : Node)

@[simp] theorem kind_shift : (node.shift distance).kind = node.kind := by rw [shift_eq]

@[simp] theorem raw_shift : (node.shift distance).raw = node.raw := by rw [shift_eq]

@[simp] theorem range_shift :
    (node.shift distance).range = node.range.shift distance := by
  rw [shift_eq]

@[simp] theorem children_shift :
    (node.shift distance).children = node.children.map (shift distance) := by
  rw [shift_eq]

@[simp] theorem payload_shift : (node.shift distance).payload = node.payload := by
  rw [shift_eq]
  simp [payload, hasChildren]

end Node

@[simp] theorem Span.length_shift (distance : Nat) (span : Span) :
    (span.shift distance).length = span.length := by
  simp [Span.shift, Span.length, Nat.add_sub_add_right]

namespace Skip

/-- The reason, if it names a span, with that span moved. -/
def shift (distance : Nat) : Skip → Skip
  | .notFound kind payload => .notFound kind payload
  | .outside kind range => .outside kind (range.shift distance)

end Skip

namespace Excerpt

/-- The excerpt with its spans moved. -/
def shift (distance : Nat) (excerpt : Excerpt) : Excerpt :=
  { excerpt with
    markup := excerpt.markup.shift distance
    content := excerpt.content.shift distance }

/-- A search in a moved container finds what it found, at the moved place. -/
theorem locate_shift (distance : Nat) (container : Node) (needle : String) :
    locate (container.shift distance) needle =
      ((locate container needle).map (Span.shift distance)).mapError
        (Skip.shift distance) := by
  simp only [locate, Node.raw_shift, Node.range_shift, Node.kind_shift, Span.shift]
  cases find? needle.toList container.raw.toList with
  | none => rfl
  | some left =>
    -- whether the padding fits the span depends on the width of the span alone
    by_cases hfits : container.range.start + left +
        (container.raw.utf8ByteSize - (left + needle.utf8ByteSize)) ≤ container.range.stop
    · have hmoved : container.range.start + distance + left +
          (container.raw.utf8ByteSize - (left + needle.utf8ByteSize)) ≤
            container.range.stop + distance := by omega
      simp only [hfits, hmoved, if_true, Except.map, Except.mapError, Span.shift,
        Except.ok.injEq, Span.mk.injEq]
      omega
    · have hmoved : ¬ container.range.start + distance + left +
          (container.raw.utf8ByteSize - (left + needle.utf8ByteSize)) ≤
            container.range.stop + distance := by omega
      simp only [hfits, hmoved, if_false]
      rfl

theorem fits_shift (distance : Nat) (container : Node) :
    fits (container.shift distance) = fits container := by
  simp [fits]

theorem container_shift (distance : Nat) (parent node : Node) :
    container (parent.shift distance) (node.shift distance) =
      (container parent node).shift distance := by
  by_cases h : parent.kind = .paragraph
  · simp [container, h]
  · simp [container, h]

theorem needle_shift (distance : Nat) (node : Node) (payload : Payload) :
    needle (node.shift distance) payload = needle node payload := by
  simp [needle]

end Excerpt

namespace Step

/-- The step taken in a moved document. -/
def shift (distance : Nat) : Step → Step
  | .consult parent node => .consult (parent.shift distance) (node.shift distance)
  | .refuse refusal => .refuse refusal
  | .misfit container => .misfit (container.shift distance)
  | .skip reason => .skip (reason.shift distance)
  | .emit excerpt => .emit (excerpt.shift distance)

end Step

/-! ## The walk -/

namespace Trail

theorem padded_shift (distance : Nat) (container : Node) (needle text : String) :
    padded (container.shift distance) needle text =
      (padded container needle text).map (Step.shift distance) := by
  rw [padded, padded, Excerpt.fits_shift, Excerpt.locate_shift, List.map_append]
  congr 1
  · cases Excerpt.fits container <;> rfl
  · cases Excerpt.locate container needle with
    | error reason => rfl
    | ok content => simp [Except.map, Except.mapError, Step.shift, Excerpt.shift]

theorem extract_shift (distance : Nat) (parent node : Node) (payload : Payload) :
    extract (parent.shift distance) (node.shift distance) payload =
      (extract parent node payload).map (Step.shift distance) := by
  by_cases hd : parent.kind = .paragraph ∧ node.kind = .str
  · rw [extract_of_direct hd.1 hd.2, extract_of_direct (by simp [hd.1]) (by simp [hd.2])]
    simp [Step.shift, Excerpt.shift]
  · rw [extract_of_padded hd, extract_of_padded (by simpa using hd),
      Excerpt.container_shift, Excerpt.needle_shift, padded_shift]

/-- The walk through a moved document takes the moved steps. -/
theorem walk_shift (distance : Nat) (parent node : Node) :
    walk .keep (parent.shift distance) (node.shift distance) =
      (walk .keep parent node).map (Step.shift distance) := by
  induction node using Node.induction_on_children generalizing parent with
  | step node ih =>
    have hmoved := node.payload_shift distance
    cases hp : node.payload with
    | some payload =>
      rw [hp] at hmoved
      rw [walk_of_payload rfl hmoved, walk_of_payload rfl hp, extract_shift]
      rfl
    | none =>
      rw [hp] at hmoved
      rw [walk_of_no_payload rfl hmoved, walk_of_no_payload rfl hp, walkAll_eq_flatMap,
        walkAll_eq_flatMap, Node.children_shift, List.flatMap_map, List.map_cons,
        List.map_flatMap]
      exact congrArg _ (List.flatMap_congr fun child hchild => ih child hchild node)

/-- So the whole trail of a moved document is the moved trail. -/
theorem ofRoot_keep_shift (distance : Nat) (root : Node) :
    ofRoot .keep (root.shift distance) =
      (ofRoot .keep root).map (Step.shift distance) := by
  rw [Flattening.ofRoot_keep, Flattening.ofRoot_keep, walkAll_eq_flatMap,
    walkAll_eq_flatMap, Node.children_shift, List.flatMap_map, List.map_flatMap]
  exact List.flatMap_congr fun node _ => walk_shift distance root node

theorem filterMap_excerpt?_shift (distance : Nat) (steps : List Step) :
    (steps.map (Step.shift distance)).filterMap excerpt? =
      (steps.filterMap excerpt?).map (Excerpt.shift distance) := by
  rw [List.filterMap_map, List.map_filterMap]
  congr 1
  funext step
  cases step <;> rfl

end Trail

/-! ## Segments and lookups -/

/-- Where a predicate turns in an array of images, it turns in the array itself. -/
theorem bisect_map {α β : Type} (f : α → β) (p : β → Bool) (xs : Array α) :
    bisect p (xs.map f) = bisect (fun x => p (f x)) xs := by
  have of_between (fuel lo hi : Nat) :
      bisectBetween p (xs.map f) fuel lo hi =
        bisectBetween (fun x => p (f x)) xs fuel lo hi := by
    induction fuel generalizing lo hi with
    | zero => rfl
    | succ fuel ih =>
      have hmid (mid : Nat) : (xs.map f)[mid]?.any p = xs[mid]?.any fun x => p (f x) := by
        cases h : xs[mid]? <;> simp [h]
      simp only [bisectBetween, hmid, ih]
  rw [bisect, bisect, Array.size_map, of_between]

namespace Segment

/-- The segment of a moved document: what is moved is its place in the source. -/
def shift (distance : Nat) (segment : Segment) : Segment :=
  { segment with
    markup := segment.markup.shift distance
    content := segment.content.shift distance }

theorem sourceOffset_shift (distance : Nat) (segment : Segment) (offset : Nat) :
    (segment.shift distance).sourceOffset offset =
      segment.sourceOffset offset + distance := by
  have hpadding : segment.content.start + distance - (segment.markup.start + distance) =
      segment.content.start - segment.markup.start := Nat.add_sub_add_right ..
  have hlength := Span.length_shift distance segment.content
  simp only [Span.shift] at hlength
  simp only [sourceOffset, shift, Span.shift, hpadding, hlength]
  omega

end Segment

namespace SourceMap

/-- The map with all its segments moved. -/
def shift (distance : Nat) (map : SourceMap) : SourceMap :=
  ⟨map.segments.map (Segment.shift distance)⟩

theorem toList_shift (distance : Nat) (map : SourceMap) :
    (map.shift distance).toList = map.toList.map (Segment.shift distance) := by
  simp [shift, toList]

theorem generatedLength_shift (distance : Nat) (map : SourceMap) :
    (map.shift distance).generatedLength = map.generatedLength := by
  cases h : map.segments.back? <;> simp [generatedLength, shift, h, Segment.shift]

theorem push_shift (distance : Nat) (map : SourceMap) (markup content : Span)
    (text : String) :
    (map.shift distance).push (markup.shift distance) (content.shift distance) text =
      (map.push markup content text).shift distance := by
  by_cases h : text = ""
  · simp [h]
  · rw [push, push, generatedLength_shift]
    simp [h, shift, Segment.shift]

/-- A lookup looks at generated offsets alone. -/
theorem segmentAt?_shift (distance : Nat) (map : SourceMap) (offset : Nat) (bias : Bias) :
    (map.shift distance).segmentAt? offset bias =
      (map.segmentAt? offset bias).map (Segment.shift distance) := by
  have hstops : (fun segment => stopsBefore offset bias (segment.shift distance)) =
      stopsBefore offset bias := by
    cases bias <;> rfl
  have hholds (segment : Segment) :
      (segment.shift distance).holds offset bias = segment.holds offset bias := by
    cases bias <;> rfl
  rw [segmentAt?, segmentAt?, shift, bisect_map, hstops]
  cases h : map.segments[bisect (stopsBefore offset bias) map.segments]? with
  | none => simp [h]
  | some segment =>
    by_cases hh : segment.holds offset bias = true
    · simp [h, Option.filter, hholds, hh]
    · simp [h, Option.filter, hholds, hh]

/-- What a lookup answers is moved by as much as the segments are. -/
theorem sourceOffset?_shift (distance : Nat) (map : SourceMap) (offset : Nat)
    (bias : Bias) :
    (map.shift distance).sourceOffset? offset bias =
      (map.sourceOffset? offset bias).map (· + distance) := by
  rw [sourceOffset?, sourceOffset?, segmentAt?_shift]
  cases map.segmentAt? offset bias with
  | none => rfl
  | some segment =>
    exact congrArg some (Segment.sourceOffset_shift distance segment offset)

end SourceMap

namespace Flattening

/-- The flattening with its places in the source moved. -/
def shift (distance : Nat) (flattening : Flattening) : Flattening :=
  ⟨flattening.text, flattening.map.shift distance⟩

theorem foldl_emit_shift (distance : Nat) (flattening : Flattening)
    (excerpts : List Excerpt) :
    (excerpts.map (Excerpt.shift distance)).foldl emit (flattening.shift distance) =
      (excerpts.foldl emit flattening).shift distance := by
  induction excerpts generalizing flattening with
  | nil => rfl
  | cons excerpt rest ih =>
    have hemit : (flattening.shift distance).emit (excerpt.shift distance) =
        (flattening.emit excerpt).shift distance := by
      simp only [emit, shift, Excerpt.shift, SourceMap.push_shift]
    rw [List.map_cons, List.foldl_cons, List.foldl_cons, hemit, ih]

theorem ofRoot_shift (distance : Nat) (root : Node) :
    ofRoot (root.shift distance) = (ofRoot root).shift distance := by
  have hempty : empty.shift distance = empty := by
    simp [empty, shift, SourceMap.shift, SourceMap.empty]
  rw [ofRoot, ofRoot, Trail.ofRoot_keep_shift, ofTrail, ofTrail,
    Trail.filterMap_excerpt?_shift, ← foldl_emit_shift, hempty]

end Flattening

/-! ## Equivariance -/

/-- Whatever its spans and its markup are, a document that is moved in its source has the
same text and the same segments, whose places in the source are moved. Its trail takes the
moved steps, so the payloads that have no place are the same ones, for the same reasons.
Lookups answer about the same offsets, with offsets that are as much greater as the
document was moved. -/
theorem Projection.equivariant_under_shift (distance : Nat) (root : Node) :
    (Flattening.ofRoot (root.shift distance)).text = (Flattening.ofRoot root).text ∧
    (Flattening.ofRoot (root.shift distance)).map.toList =
      (Flattening.ofRoot root).map.toList.map (Segment.shift distance) ∧
    Trail.ofRoot .keep (root.shift distance) =
      (Trail.ofRoot .keep root).map (Step.shift distance) ∧
    ∀ offset bias,
      (Flattening.ofRoot (root.shift distance)).map.sourceOffset? offset bias =
        ((Flattening.ofRoot root).map.sourceOffset? offset bias).map (· + distance) ∧
      (ofRoot (root.shift distance)).offsetOfOffset? offset bias =
        ((ofRoot root).offsetOfOffset? offset bias).map (· + distance) := by
  have hshift := Flattening.ofRoot_shift distance root
  have hlookup (offset : Nat) (bias : Bias) :
      (Flattening.ofRoot (root.shift distance)).map.sourceOffset? offset bias =
        ((Flattening.ofRoot root).map.sourceOffset? offset bias).map (· + distance) := by
    rw [hshift]
    exact SourceMap.sourceOffset?_shift distance _ offset bias
  refine ⟨by rw [hshift]; rfl, ?_, Trail.ofRoot_keep_shift distance root, ?_⟩
  · rw [hshift]
    exact SourceMap.toList_shift distance _
  · intro offset bias
    exact ⟨hlookup offset bias, hlookup offset bias⟩

end ProseMap
