import ProseMap.Proofs.Loading
import ProseMap.Proofs.Trees
import ProseMap.SourceMap

/-!
# Saving and loading

What is saved loads again as it was, a tree as well as a source map, if its spans fit in
64 bits. What was loaded has such spans, so that it can be saved and loaded any number of
times. -/

namespace ProseMap.Node

open Json (Outline Token Source)

variable {source : Source} {outline : Outline} {node : Node} {field : Field}

/-! ## Saved trees -/

namespace Field

/-- All fields in ascending order of their keys. -/
def byKey : List Field :=
  [.alt, .children, .range, .raw, .title, .kind, .value]

theorem byKey_ascending : byKey.Pairwise fun a b => a.key < b.key := by decide

theorem mem_byKey (field : Field) : field ∈ byKey := by
  cases field <;> decide

end Field

/-- What is saved of a node for a field, if anything is. -/
def saved? (node : Node) : Field → Option Json
  | .kind => some (.string node.kind.name)
  | .value => node.value.map .string
  | .alt => node.alt.map .string
  | .title => node.title.map .string
  | .children =>
    if node.children.isEmpty then none else some (.array (node.children.map toJson))
  | .range => some node.range.toJson
  | .raw => some (.string node.raw)

theorem toJsonAll_eq_map (nodes : List Node) : toJsonAll nodes = nodes.map toJson := by
  induction nodes with
  | nil => rfl
  | cons node rest ih => rw [toJsonAll, ih, List.map_cons]

theorem toJson_eq (node : Node) :
    node.toJson =
      .object (Field.byKey.filterMap fun field =>
        (node.saved? field).map (field.key, ·)) := by
  obtain ⟨kind, value, alt, title, children, range, raw⟩ := node
  simp only [toJson, toJsonAll_eq_map, textMember]
  cases value <;> cases alt <;> cases title <;> cases children <;> rfl

/-- A saved tree has one entry for each field of which something is saved. -/
theorem mem_entries_toJson_iff :
    (field, outline) ∈ entries (.ofJson node.toJson) ↔
      ∃ value, node.saved? field = some value ∧ outline = .ofJson value := by
  have hascending : Json.Ascending
      (Field.byKey.filterMap fun field => (node.saved? field).map (field.key, ·)) := by
    rw [Json.Ascending, List.pairwise_filterMap]
    refine Field.byKey_ascending.imp ?_
    intro field other hlt member hmember member' hmember'
    obtain ⟨_, -, rfl⟩ := Option.map_eq_some_iff.mp hmember
    obtain ⟨_, -, rfl⟩ := Option.map_eq_some_iff.mp hmember'
    exact hlt
  have hmem (value : Json) :
      (field.key, value) ∈
          (Field.byKey.filterMap fun field => (node.saved? field).map (field.key, ·)) ↔
        node.saved? field = some value := by
    rw [List.mem_filterMap]
    constructor
    · rintro ⟨other, -, hother⟩
      obtain ⟨_, hsaved, heq⟩ := Option.map_eq_some_iff.mp hother
      obtain ⟨hkey, rfl⟩ := Prod.mk.inj heq
      obtain rfl := Field.key_inj.mp hkey
      exact hsaved
    · intro hsaved
      exact ⟨field, Field.mem_byKey field, by rw [hsaved, Option.map_some]⟩
  rw [toJson_eq, mem_entries_ofJson_object_iff]
  simp only [← Json.mem_sortMembers_iff, Json.sortMembers_of_ascending hascending, hmem]

/-- A tree with spans that 64 bits hold. -/
def InWords (node : Node) : Prop :=
  ∀ inner ∈ node.preorder, inner.range.Words

theorem InWords.child {child : Node} (h : node.InWords) (hchild : child ∈ node.children) :
    child.InWords :=
  fun inner hinner => h inner (mem_preorder_iff.mpr (.inr ⟨child, hchild, hinner⟩))

theorem reads_saved {value : Json} (hrange : node.range.Words)
    (hchildren : ∀ child ∈ node.children, read .value (.ofJson child.toJson) = .ok child)
    (hsaved : node.saved? field = some value) :
    field.Reads .value (.ofJson value) node := by
  cases field with
  | kind =>
    obtain rfl := Option.some.inj hsaved
    show Except.ok (Kind.ofName node.kind.name) = _
    rw [Kind.ofName_name]
  | raw =>
    obtain rfl := Option.some.inj hsaved
    rfl
  | range =>
    obtain rfl := Option.some.inj hsaved
    exact Span.read_toJson hrange
  | value | alt | title =>
    obtain ⟨text, htext, rfl⟩ := Option.map_eq_some_iff.mp hsaved
    exact Outline.asOptionalString_eq_ok_iff.mpr (.inr ⟨_, text, rfl, rfl, htext⟩)
  | children =>
    simp only [saved?] at hsaved
    split at hsaved
    · cases hsaved
    · obtain rfl := Option.some.inj hsaved
      refine Outline.asList_eq_ok_iff.mpr ⟨_, _, Outline.ofJson_array _, rfl, ?_⟩
      rw [List.map_map, List.forall₂_map_left_iff, List.forall₂_same]
      exact hchildren

theorem same_blank_of_not_saved (h : node.saved? field = none) :
    Field.Same node blank field := by
  cases field with
  | kind | range | raw => cases h
  | value | alt | title => exact Option.map_eq_none_iff.mp h
  | children =>
    simp only [saved?] at h
    split at h
    · rename_i hnil
      exact List.isEmpty_iff.mp hnil
    · cases h

theorem read_toJson_of_inWords (h : node.InWords) : ofJson node.toJson = .ok node := by
  induction node using induction_on_children with
  | step node ih =>
    have hunsaved : ∀ field ∉ (entries (.ofJson node.toJson)).map Prod.fst,
        node.saved? field = none := by
      intro field hfield
      cases hsaved : node.saved? field with
      | none => rfl
      | some value =>
        have hentry := mem_entries_toJson_iff.mpr ⟨value, hsaved, rfl⟩
        exact absurd (List.mem_map_of_mem hentry) hfield
    refine read_eq_ok_iff.mpr ⟨.value, rfl, ?_, ?_, ?_, ?_, ?_⟩
    · rw [toJson_eq]
      exact regular_ofJson_object _
    · rw [toJson_eq]
      exact distinct_entries_ofJson_object _
    · intro field hfield
      by_contra hnot
      have := hunsaved field hnot
      cases field <;> simp [Field.required, saved?] at hfield this
    · rintro ⟨field, outline⟩ hentry
      obtain ⟨value, hsaved, rfl⟩ := mem_entries_toJson_iff.mp hentry
      exact reads_saved (h node (self_mem_preorder node))
        (fun child hchild => ih child hchild (h.child hchild)) hsaved
    · intro field hfield
      exact same_blank_of_not_saved (hunsaved field hfield)

/-- What is read is in words. -/
theorem inWords_of_read (h : read source outline = .ok node) : node.InWords := by
  induction outline using induction_on_entries generalizing source node with
  | step outline ih =>
    obtain ⟨inner, -, -, hdescribes⟩ := read_eq_ok_iff.mp h
    have hrange : node.range.Words := by
      obtain ⟨⟨field, span⟩, hentry, rfl⟩ :=
        List.mem_map.mp (hdescribes.required .range (by decide))
      exact Span.words_of_read (hdescribes.present _ hentry)
    intro inner hinner
    rcases mem_preorder_iff.mp hinner with rfl | ⟨child, hchild, hinner⟩
    · exact hrange
    · obtain ⟨items, ending, _, hentry, -, item, hitem, hread⟩ :=
        hdescribes.exists_item hchild
      exact ih items ending hentry item hitem hread inner hinner

end ProseMap.Node

namespace ProseMap

open Json

namespace Segment

/-- A segment with spans that 64 bits hold. -/
def InWords (segment : Segment) : Prop :=
  segment.markup.Words ∧ segment.content.Words ∧ segment.generated.Words

theorem read_toJson_of_inWords {segment : Segment} (h : segment.InWords) :
    record.read .value (.ofJson segment.toJson) = .ok segment := by
  obtain ⟨hmarkup, hcontent, hgenerated⟩ := h
  have hascending : Ascending
      [("generated", segment.generated.toJson), ("intermediate", segment.content.toJson),
        ("original", segment.markup.toJson), ("text", .string segment.text)] :=
    Ascending.of_keys <| by
      show ["generated", "intermediate", "original", "text"].Pairwise (· < ·)
      decide
  have hmembers : record.readMembers .value [] record.blank
      [(.sound "generated", .ofJson segment.generated.toJson),
        (.sound "intermediate", .ofJson segment.content.toJson),
        (.sound "original", .ofJson segment.markup.toJson),
        (.sound "text", .ofJson (.string segment.text))] =
      .ok (["text", "original", "intermediate", "generated"], segment) := by
    rw [Record.readMembers_cons rfl (by simp)
      (by simp only [Span.read_toJson hgenerated]; rfl)]
    rw [Record.readMembers_cons rfl (by simp)
      (by simp only [Span.read_toJson hcontent]; rfl)]
    rw [Record.readMembers_cons rfl (by simp)
      (by simp only [Span.read_toJson hmarkup]; rfl)]
    rw [Record.readMembers_cons rfl (by simp) rfl]
    rfl
  rw [toJson, Outline.ofJson_object, Outline.membersOf_of_ascending hascending]
  exact Record.read_of_members hmembers (by simp [record])

theorem inWords_of_read {source : Source} {outline : Outline} {segment : Segment}
    (h : record.read source outline = .ok segment) : segment.InWords := by
  have hblank : record.blank.InWords := by
    simp [record, InWords, Span.Words, wordLimit]
  refine Record.holds_of_read ?_ hblank h
  intro field hfield source outline old new hold hfill
  obtain ⟨hmarkup, hcontent, hgenerated⟩ := hold
  simp only [record, List.mem_cons, List.not_mem_nil, or_false] at hfield
  rcases hfield with rfl | rfl | rfl | rfl <;>
    obtain ⟨read, hread, hnew⟩ := bind_eq_ok_iff.mp hfill <;>
    obtain rfl := pure_eq_ok_iff.mp hnew
  · exact ⟨Span.words_of_read hread, hcontent, hgenerated⟩
  · exact ⟨hmarkup, Span.words_of_read hread, hgenerated⟩
  · exact ⟨hmarkup, hcontent, Span.words_of_read hread⟩
  · exact ⟨hmarkup, hcontent, hgenerated⟩

end Segment

namespace SourceMap

/-- A source map with spans that 64 bits hold. -/
def InWords (map : SourceMap) : Prop :=
  ∀ segment ∈ map.toList, segment.InWords

theorem read_toJson_of_inWords {map : SourceMap} (h : map.InWords) :
    ofJson map.toJson = .ok map := by
  have hascending :
      Ascending [("segments", Json.array (map.toList.map Segment.toJson))] :=
    List.pairwise_singleton _ _
  have hlist : (Outline.ofJson (.array (map.toList.map Segment.toJson))).asList
      Segment.record.read .value = .ok map.toList := by
    refine Outline.asList_eq_ok_iff.mpr ⟨_, _, Outline.ofJson_array _, rfl, ?_⟩
    rw [List.map_map, List.forall₂_map_left_iff, List.forall₂_same]
    exact fun segment hsegment => Segment.read_toJson_of_inWords (h segment hsegment)
  have hmembers : record.readMembers .value [] record.blank
      [(.sound "segments", .ofJson (.array (map.toList.map Segment.toJson)))] =
      .ok (["segments"], map) := by
    rw [Record.readMembers_cons rfl (by simp) (by simp only [hlist]; rfl)]
    rfl
  rw [ofJson, toJson, Outline.ofJson_object, Outline.membersOf_of_ascending hascending]
  exact Record.read_of_members hmembers (by simp [record])

theorem inWords_of_ofJson {value : Json} {map : SourceMap} (h : ofJson value = .ok map) :
    map.InWords := by
  have hblank : record.blank.InWords := by
    simp [record, empty, InWords, toList]
  refine Record.holds_of_read ?_ hblank h
  intro field hfield source outline _ new _ hfill
  obtain rfl := List.mem_singleton.mp hfield
  obtain ⟨segments, hread, hnew⟩ := bind_eq_ok_iff.mp hfill
  obtain rfl := pure_eq_ok_iff.mp hnew
  obtain ⟨items, inner, -, -, hall⟩ := Outline.asList_eq_ok_iff.mp hread
  intro segment hsegment
  obtain ⟨item, -, hitem⟩ := exists_of_forall₂ hall hsegment
  exact Segment.inWords_of_read hitem

end SourceMap

/-! ## Saving and loading -/

/-- Saving and loading are inverse, for trees and for source maps, and a source map that
was saved and loaded answers as before. -/
theorem saved_loads_back :
    (∀ node : Node, node.InWords → Node.ofJson node.toJson = .ok node) ∧
      (∀ value node, Node.ofJson value = .ok node → Node.ofJson node.toJson = .ok node) ∧
      (∀ map : SourceMap, map.InWords → SourceMap.ofJson map.toJson = .ok map) ∧
      (∀ value map, SourceMap.ofJson value = .ok map →
        SourceMap.ofJson map.toJson = .ok map) ∧
      ∀ map reloaded : SourceMap, map.InWords →
        SourceMap.ofJson map.toJson = .ok reloaded →
        ∀ offset bias, reloaded.segmentAt? offset bias = map.segmentAt? offset bias ∧
          reloaded.sourceOffset? offset bias = map.sourceOffset? offset bias := by
  refine ⟨fun node => Node.read_toJson_of_inWords, ?_,
    fun map => SourceMap.read_toJson_of_inWords, ?_, ?_⟩
  · intro value node h
    exact Node.read_toJson_of_inWords (Node.inWords_of_read h)
  · intro value map h
    exact SourceMap.read_toJson_of_inWords (SourceMap.inWords_of_ofJson h)
  · intro map reloaded hwords h
    rw [SourceMap.read_toJson_of_inWords hwords] at h
    obtain rfl := Except.ok.inj h
    exact fun offset bias => ⟨rfl, rfl⟩

/-- The table of a piece of bold text, saved and loaded. -/
def boldMap : SourceMap :=
  SourceMap.empty.push ⟨0, 7⟩ ⟨2, 5⟩ "str"

/-- A tree with a text that is there but empty and a span that is the wrong way round, a
tree loaded from an array, and the table of a piece of bold text. -/
theorem saved_loads_back_sample :
    (let node : Node :=
      { kind := .image, alt := some "", range := ⟨4, 2⟩, raw := "![]()" }
     Node.ofJson node.toJson = .ok node) ∧
    (let node : Node := { kind := .str, title := some "t", range := ⟨0, 1⟩, raw := "" }
     Node.ofJson node.toJson = .ok node) ∧
    SourceMap.ofJson boldMap.toJson = .ok boldMap ∧
    ∃ reloaded, SourceMap.ofJson boldMap.toJson = .ok reloaded ∧
      reloaded.sourceOffset? 1 .start = some 3 := by
  have hbold : boldMap.InWords := by
    intro segment hsegment
    obtain rfl := List.mem_singleton.mp hsegment
    simp only [Segment.InWords, Span.Words]
    decide
  refine ⟨saved_loads_back.1 _ ?_,
    saved_loads_back.2.1 (.array [.string "Str", .null, .null, .string "t", .array [],
      .array [.ofNat 0, .ofNat 1]]) _ (by decide +kernel),
    saved_loads_back.2.2.2.1 boldMap.toJson _ (saved_loads_back.2.2.1 _ hbold),
    boldMap, saved_loads_back.2.2.1 _ hbold, ?_⟩
  · simp [Node.InWords, Node.preorder, Node.preorderAll, Span.Words, Json.wordLimit]
  · exact (saved_loads_back.2.2.2.2 boldMap boldMap hbold
      (saved_loads_back.2.2.1 _ hbold) 1 .start).2.trans rfl

end ProseMap
