import Mathlib.Logic.Relation
import ProseMap.Proofs.Loading

/-!
# The schema of saved trees

Which values load as a tree, said field by field (`Conforms`), and the tree that such a
value stands for (`reading`). Loading accepts exactly the values of the schema and answers
with their readings. It cannot see members that no node has, nor `null` in place of
nothing (`Inert`). -/

namespace ProseMap

/-! ## Kinds by name -/

namespace Kind

/-- The kinds that have names of their own. -/
def named : List Kind :=
  [.document, .paragraph, .header, .str, .emphasis, .strong, .delete, .code, .link,
    .image, .html]

/-- The kind of a name is the one that has it, or else a container. -/
theorem ofName_eq_find? (name : String) :
    ofName name = (named.find? fun kind => name = kind.name).getD .container := by
  unfold ofName
  split <;> simp_all [named, Kind.name]

end Kind

/-! ## Typed data in values -/

namespace Json.Outline

variable {said : Json}

theorem asString_of_value {s : String} :
    (ofJson said).asString = .ok s ↔ said = .string s := by
  cases said <;> simp [ofJson, asString_eq_ok_iff, Token.sound]

theorem asOptionalString_of_value {text : Option String} :
    (ofJson said).asOptionalString = .ok text ↔
      said = .null ∧ text = none ∨ ∃ s, said = .string s ∧ text = some s := by
  cases said <;>
    simp [ofJson, asOptionalString_eq_ok_iff, Token.sound, eq_comm (a := text)]

theorem asWord_of_value {n : Nat} :
    (ofJson said).asWord = .ok n ↔ n < wordLimit ∧ said = .ofNat n := by
  cases said <;> simp [ofJson, asWord_eq_ok_iff, Token.sound, ofNat]

theorem asList_of_value {α : Type} {item : Source → Outline → Except Error α}
    {values : List α} :
    (ofJson said).asList item .value = .ok values ↔
      ∃ items, said = .array items ∧
        List.Forall₂ (fun inner value => item .value (ofJson inner) = .ok value)
          items values := by
  cases said with
  | array items =>
    have hinner : Source.enter .value = .ok .value := rfl
    simp [ofJson_array, asList_array_iff hinner, List.forall₂_map_left_iff]
  | _ => simp [ofJson, asList_eq_ok_iff]

end Json.Outline

theorem Span.read_of_value {said : Json} {span : Span} :
    read .value (.ofJson said) = .ok span ↔ span.Words ∧ said = span.toJson := by
  constructor
  · intro h
    refine ⟨words_of_read h, ?_⟩
    rw [read_eq_ok_iff] at h
    cases said with
    | array items =>
      rw [Json.Outline.ofJson_array, Json.Outline.asPair_array_iff rfl] at h
      obtain ⟨first, second, hitems, hfirst, hsecond⟩ := h
      obtain ⟨a, more, rfl, rfl, hmore⟩ := List.map_eq_cons_iff.mp hitems
      obtain ⟨b, rest, rfl, rfl, hrest⟩ := List.map_eq_cons_iff.mp hmore
      obtain rfl := List.map_eq_nil_iff.mp hrest
      rw [(Json.Outline.asWord_of_value.mp hfirst).2,
        (Json.Outline.asWord_of_value.mp hsecond).2]
      rfl
    | _ => simp [Json.Outline.ofJson, Json.Outline.asPair_eq_ok_iff] at h
  · rintro ⟨hwords, rfl⟩
    exact read_toJson hwords

namespace Node

open Json (Outline)

variable {value other : Json} {node : Node} {field : Field}

/-! ## The schema -/

/-- What a value gives for a field of a node: an object what it has under the key of the
field, and an array what it has in the place of the field. -/
def given : Json → Field → Option Json
  | .object members, field => Json.lookup field.key members
  | .array items, field => items[Field.all.idxOf field]?
  | _, _ => none

/-- What may be given for a field. Children are looked at one by one elsewhere. -/
def Field.Allows : Field → Option Json → Prop
  | .kind, said => ∃ name, said = some (.string name)
  | .value, said | .alt, said | .title, said =>
    said = none ∨ said = some .null ∨ ∃ text, said = some (.string text)
  | .children, said => said = none ∨ ∃ items, said = some (.array items)
  | .range, said => ∃ start stop : Nat, start < Json.wordLimit ∧ stop < Json.wordLimit ∧
      said = some (.array [.ofNat start, .ofNat stop])
  | .raw, said => said = none ∨ ∃ text, said = some (.string text)

/-- The values of the schema: objects, of which only the members for fields matter, and
arrays that give the fields in their order and may leave out the last one. -/
inductive Conforms : Json → Prop where
  | object {members : List (String × Json)}
    (allowed : ∀ field : Field, field.Allows (given (.object members) field))
    (children : ∀ items, given (.object members) .children = some (.array items) →
      ∀ item ∈ items, Conforms item) : Conforms (.object members)
  | array {items : List Json} (length : items.length = 6 ∨ items.length = 7)
    (allowed : ∀ field : Field, field.Allows (given (.array items) field))
    (children : ∀ inner, given (.array items) .children = some (.array inner) →
      ∀ item ∈ inner, Conforms item) : Conforms (.array items)

/-! ## The reading -/

/-- The text that is given, if it is a text. -/
def textOf : Option Json → Option String
  | some (.string text) => some text
  | _ => none

/-- The kind that is given by its name. -/
def kindOf (said : Option Json) : Kind :=
  (Kind.named.find? fun kind => textOf said = some kind.name).getD .container

/-- The span that is given by its ends. -/
def spanOf : Option Json → Span
  | some (.array [.number (.integer start), .number (.integer stop)]) =>
    ⟨start.toNat, stop.toNat⟩
  | _ => ⟨0, 0⟩

theorem sizeOf_lt_of_given {inner : Json} (h : given value field = some inner) :
    sizeOf inner < sizeOf value := by
  cases value with
  | object members =>
    have hlt := List.sizeOf_lt_of_mem (Json.mem_of_lookup h)
    simp at hlt ⊢
    omega
  | array items =>
    have hlt := List.sizeOf_lt_of_mem (List.mem_of_getElem? h)
    simp
    omega
  | _ => cases h

theorem sizeOf_lt_of_child {items : List Json} {item : Json}
    (h : given value .children = some (.array items)) (hitem : item ∈ items) :
    sizeOf item < sizeOf value := by
  have hgiven := sizeOf_lt_of_given h
  have hlt := List.sizeOf_lt_of_mem hitem
  simp at hgiven
  omega

/-- The tree that a value stands for. -/
def reading (value : Json) : Node :=
  { kind := kindOf (given value .kind)
    value := textOf (given value .value)
    alt := textOf (given value .alt)
    title := textOf (given value .title)
    children :=
      match _h : given value .children with
      | some (.array items) => items.attach.map fun item => reading item.1
      | _ => []
    range := spanOf (given value .range)
    raw := (textOf (given value .raw)).getD "" }
termination_by sizeOf value
decreasing_by exact sizeOf_lt_of_child _h item.2

theorem children_reading_of_array {items : List Json}
    (h : given value .children = some (.array items)) :
    (reading value).children = items.map reading := by
  rw [reading]
  dsimp only
  split
  · rename_i items' heq
    obtain rfl : items = items' := by simpa [h] using heq
    simp
  · rename_i hne
    exact absurd h (hne items)

theorem children_reading_of_none (h : given value .children = none) :
    (reading value).children = [] := by
  rw [reading]
  dsimp only
  split
  · rename_i heq
    rw [h] at heq
    cases heq
  · rfl

/-! ## What loading looks at -/

/-- An object, or an array that is not too long for a node. -/
def Form : Json → Prop
  | .object _ => True
  | .array items => items.length ≤ Field.all.length
  | _ => False

/-- Whether what is given for a field says what a node has in it. -/
def Field.Tells (node : Node) (field : Field) : Option Json → Prop
  | some said => field.Reads .value (.ofJson said) node
  | none => field ∉ Field.required ∧ Field.Same node blank field

theorem regular_ofJson_iff : Regular (.ofJson value) ↔ Form value := by
  cases value with
  | object members => exact iff_of_true (regular_ofJson_object members) trivial
  | array items => simp [Outline.ofJson_array, Regular, Form]
  | _ => simp [Outline.ofJson, Regular, Form]

theorem distinct_entries_ofJson (value : Json) :
    ((entries (.ofJson value)).map Prod.fst).Nodup := by
  cases value with
  | object members => exact distinct_entries_ofJson_object members
  | array items =>
    rw [Outline.ofJson_array]
    exact distinct_zip _
  | _ => simp [Outline.ofJson, entries]

theorem getElem?_all_iff {i : Nat} :
    Field.all[i]? = some field ↔ i = Field.all.idxOf field := by
  have hmem : field ∈ Field.all := by cases field <;> decide
  constructor
  · intro h
    obtain ⟨hi, rfl⟩ := List.getElem?_eq_some_iff.mp h
    exact (Field.nodup_all.idxOf_getElem i hi).symm
  · rintro rfl
    exact List.getElem?_idxOf hmem

/-- The entries of a value are what it gives. -/
theorem mem_entries_ofJson_iff {outline : Outline} :
    (field, outline) ∈ entries (.ofJson value) ↔
      ∃ said, given value field = some said ∧ outline = .ofJson said := by
  cases value with
  | object members => exact mem_entries_ofJson_object_iff
  | array items =>
    rw [Outline.ofJson_array]
    simp only [entries, List.mem_iff_getElem?, List.getElem?_zip_eq_some,
      getElem?_all_iff, exists_eq_left, List.getElem?_map, Option.map_eq_some_iff, given,
      eq_comm (a := outline)]
  | _ => simp [Outline.ofJson, entries, given]

theorem mem_fst_entries_iff :
    field ∈ (entries (.ofJson value)).map Prod.fst ↔
      ∃ said, given value field = some said := by
  simp [mem_entries_ofJson_iff]

/-- A value loads as a node if it tells all its fields. -/
theorem ofJson_eq_ok_iff :
    ofJson value = .ok node ↔
      Form value ∧ ∀ field : Field, field.Tells node (given value field) := by
  rw [ofJson, read_eq_ok_iff, ← regular_ofJson_iff]
  constructor
  · rintro ⟨_, ⟨⟩, hregular, hdescribes⟩
    refine ⟨hregular, ?_⟩
    intro field
    cases hgiven : given value field with
    | some said =>
      have hentry := mem_entries_ofJson_iff.mpr ⟨said, hgiven, rfl⟩
      exact hdescribes.present _ hentry
    | none =>
      have hnot : field ∉ (entries (.ofJson value)).map Prod.fst := by
        simp [mem_fst_entries_iff, hgiven]
      exact ⟨fun hrequired => hnot (hdescribes.required field hrequired),
        hdescribes.absent field hnot⟩
  · rintro ⟨hregular, htells⟩
    refine ⟨_, rfl, hregular, distinct_entries_ofJson value, ?_, ?_, ?_⟩
    · intro field hrequired
      rw [mem_fst_entries_iff]
      cases hgiven : given value field with
      | some said => exact ⟨said, rfl⟩
      | none =>
        have htell := htells field
        rw [hgiven] at htell
        exact absurd hrequired htell.1
    · rintro ⟨field, outline⟩ hentry
      obtain ⟨said, hgiven, rfl⟩ := mem_entries_ofJson_iff.mp hentry
      have htell := htells field
      rw [hgiven] at htell
      exact htell
    · intro field hnot
      have hgiven : given value field = none := by
        rw [mem_fst_entries_iff, not_exists] at hnot
        exact Option.eq_none_iff_forall_ne_some.mpr hnot
      have htell := htells field
      rw [hgiven] at htell
      exact htell.2

/-! ## What is told of each field -/

theorem kindOf_string (name : String) :
    kindOf (some (.string name)) = Kind.ofName name := by
  rw [Kind.ofName_eq_find?, kindOf]
  simp only [textOf, Option.some.injEq]

theorem tells_kind_iff {found : Option Json} :
    Field.kind.Tells node found ↔ Field.kind.Allows found ∧ kindOf found = node.kind := by
  cases found with
  | none => simp [Field.Tells, Field.Allows, Field.required]
  | some said =>
    simp only [Field.Tells, Field.Reads, Field.Allows, Json.map_eq_ok_iff,
      Outline.asString_of_value, Option.some.injEq]
    constructor
    · rintro ⟨name, rfl, hkind⟩
      exact ⟨⟨name, rfl⟩, (kindOf_string name).trans hkind⟩
    · rintro ⟨⟨name, rfl⟩, hkind⟩
      exact ⟨name, rfl, (kindOf_string name).symm.trans hkind⟩

theorem tells_range_iff {found : Option Json} :
    Field.range.Tells node found ↔
      Field.range.Allows found ∧ spanOf found = node.range := by
  cases found with
  | none => simp [Field.Tells, Field.Allows, Field.required]
  | some said =>
    simp only [Field.Tells, Field.Reads, Field.Allows, Span.read_of_value,
      Option.some.injEq]
    constructor
    · rintro ⟨hwords, rfl⟩
      exact ⟨⟨_, _, hwords.1, hwords.2, rfl⟩, rfl⟩
    · rintro ⟨⟨start, stop, hstart, hstop, rfl⟩, hrange⟩
      rw [← hrange]
      exact ⟨⟨hstart, hstop⟩, rfl⟩

theorem tells_raw_iff {found : Option Json} :
    Field.raw.Tells node found ↔
      Field.raw.Allows found ∧ (textOf found).getD "" = node.raw := by
  cases found with
  | none =>
    have hblank : Field.Same node blank .raw ↔ "" = node.raw := eq_comm
    simp [Field.Tells, Field.Allows, Field.required, hblank, textOf]
  | some said =>
    simp only [Field.Tells, Field.Reads, Field.Allows, Outline.asString_of_value,
      Option.some.injEq, reduceCtorEq, false_or]
    constructor
    · rintro rfl
      exact ⟨⟨_, rfl⟩, rfl⟩
    · rintro ⟨⟨text, rfl⟩, hraw⟩
      rw [← hraw]
      rfl

theorem reads_text_iff {said : Json} {text : Option String} :
    (Outline.ofJson said).asOptionalString = .ok text ↔
      (said = .null ∨ ∃ s, said = .string s) ∧ textOf (some said) = text := by
  rw [Outline.asOptionalString_of_value]
  constructor
  · rintro (⟨rfl, rfl⟩ | ⟨s, rfl, rfl⟩)
    · exact ⟨.inl rfl, rfl⟩
    · exact ⟨.inr ⟨s, rfl⟩, rfl⟩
  · rintro ⟨rfl | ⟨s, rfl⟩, rfl⟩
    · exact .inl ⟨rfl, rfl⟩
    · exact .inr ⟨s, rfl, rfl⟩

/-- `null` tells the same of a text as nothing. -/
theorem tells_null_iff (htext : field ∈ [.value, .alt, .title]) :
    field.Tells node none ↔ field.Tells node (some .null) := by
  cases field with
  | value | alt | title =>
    simp [Field.Tells, Field.Reads, Field.required, Field.Same, blank,
      Outline.asOptionalString_of_value]
  | _ => simp at htext

/-- Children are told if each item tells one of them. -/
theorem reads_children_iff {items : List Json} {children : List Node}
    (hitems : ∀ item ∈ items, ∀ child,
      ofJson item = .ok child ↔ Conforms item ∧ reading item = child) :
    List.Forall₂ (fun item child => ofJson item = .ok child) items children ↔
      (∀ item ∈ items, Conforms item) ∧ items.map reading = children := by
  rw [← List.forall₂_eq_eq_eq (α := Node), List.forall₂_map_left_iff,
    ← List.forall₂_and_left, List.forall₂_iff_zip, List.forall₂_iff_zip]
  refine and_congr_right fun _ => forall_congr' fun item => forall_congr' fun child => ?_
  exact imp_congr_right fun hmem => hitems item (List.of_mem_zip hmem).1 child

section Items

variable (hitems : ∀ items, given value .children = some (.array items) →
  ∀ item ∈ items, ∀ child,
    ofJson item = .ok child ↔ Conforms item ∧ reading item = child)

include hitems

theorem tells_children_iff :
    Field.children.Tells node (given value .children) ↔
      Field.children.Allows (given value .children) ∧
        (∀ items, given value .children = some (.array items) →
          ∀ item ∈ items, Conforms item) ∧
        (reading value).children = node.children := by
  cases hgiven : given value .children with
  | none =>
    rw [children_reading_of_none hgiven]
    simp [Field.Tells, Field.Allows, Field.required, Field.Same, blank, eq_comm]
  | some said =>
    simp only [Field.Tells, Field.Reads, Outline.asList_of_value, Field.Allows,
      reduceCtorEq, false_or, Option.some.injEq]
    constructor
    · rintro ⟨items, rfl, hall⟩
      obtain ⟨hconform, hreading⟩ := (reads_children_iff (hitems items hgiven)).mp hall
      refine ⟨⟨items, rfl⟩, ?_, (children_reading_of_array hgiven).trans hreading⟩
      rintro _ ⟨⟩
      exact hconform
    · rintro ⟨⟨items, rfl⟩, hconform, hreading⟩
      rw [children_reading_of_array hgiven] at hreading
      exact ⟨items, rfl,
        (reads_children_iff (hitems items hgiven)).mpr ⟨hconform items rfl, hreading⟩⟩

/-- What is given for a field tells the field of the reading, and no other value of it. -/
theorem tells_given_iff :
    field.Tells node (given value field) ↔
      field.Allows (given value field) ∧
        (field = .children → ∀ items, given value .children = some (.array items) →
          ∀ item ∈ items, Conforms item) ∧
        Field.Same (reading value) node field := by
  cases field with
  | children => simpa [Field.Same] using tells_children_iff hitems
  | kind =>
    rw [reading]
    simpa [Field.Same] using tells_kind_iff
  | range =>
    rw [reading]
    simpa [Field.Same] using tells_range_iff
  | raw =>
    rw [reading]
    simpa [Field.Same] using tells_raw_iff
  | value | alt | title =>
    rw [reading]
    simp only [Field.Same, reduceCtorEq, false_implies, true_and]
    cases given value _ with
    | none =>
      simp [Field.Tells, Field.Allows, Field.required, Field.Same, textOf, blank, eq_comm]
    | some said => simpa [Field.Allows, Field.Tells, Field.Reads] using reads_text_iff

end Items

/-- What an object or an array conforms by. -/
theorem conforms_iff :
    Conforms value ↔ Form value ∧ (∀ field : Field, field.Allows (given value field)) ∧
      ∀ items, given value .children = some (.array items) →
        ∀ item ∈ items, Conforms item := by
  constructor
  · rintro (⟨allowed, children⟩ | ⟨length, allowed, children⟩)
    · exact ⟨trivial, allowed, children⟩
    · refine ⟨?_, allowed, children⟩
      rcases length with h | h <;> simp [Form, Field.all, h]
  · rintro ⟨hform, allowed, children⟩
    cases value with
    | object members => exact .object allowed children
    | array items =>
      -- without the range, the sixth item, the array is not long enough
      have hrange : ∃ said, items[5]? = some said := by
        obtain ⟨start, stop, -, -, hsaid⟩ := allowed .range
        exact ⟨_, hsaid⟩
      obtain ⟨said, hsaid⟩ := hrange
      obtain ⟨hlong, -⟩ := List.getElem?_eq_some_iff.mp hsaid
      have hshort : items.length ≤ 7 := hform
      exact .array (by omega) allowed children
    | _ => cases hform

/-- Loading accepts the values of the schema and answers with their readings. -/
theorem loads_iff (value : Json) :
    ∀ node, ofJson value = .ok node ↔ Conforms value ∧ reading value = node := by
  intro node
  have hitems (items : List Json) (hgiven : given value .children = some (.array items))
      (item : Json) (hitem : item ∈ items) (child : Node) :
      ofJson item = .ok child ↔ Conforms item ∧ reading item = child :=
    have := sizeOf_lt_of_child hgiven hitem
    loads_iff item child
  rw [ofJson_eq_ok_iff, conforms_iff, and_assoc, and_congr_right_iff]
  intro _
  simp only [tells_given_iff hitems]
  constructor
  · intro h
    have hallows (field : Field) := (h field).1
    have hchildren := (h .children).2.1 rfl
    exact ⟨⟨hallows, hchildren⟩, ext_of_same fun field => (h field).2.2⟩
  · rintro ⟨⟨hallows, hchildren⟩, rfl⟩ field
    exact ⟨hallows field, fun _ => hchildren, Field.Same.refl _ _⟩
termination_by sizeOf value

/-! ## Edits that do not matter -/

/-- An edit that loading cannot see: a member with the key of no field, `null` for a text
that is not there, or such an edit within a child. -/
inductive Inert : Json → Json → Prop where
  | unknown {before after : List (String × Json)} {key : String} {said : Json}
    (unknown : Field.ofKey? key = none) :
    Inert (.object (before ++ after)) (.object (before ++ (key, said) :: after))
  | null {before after : List (String × Json)} {field : Field}
    (text : field ∈ [.value, .alt, .title])
    (absent : Json.lookup field.key (before ++ after) = none) :
    Inert (.object (before ++ after)) (.object (before ++ (field.key, .null) :: after))
  | member {before after : List (String × Json)} {elder younger : List Json}
      {child edited : Json} (inert : Inert child edited) :
    Inert
      (.object
        (before ++ (Field.children.key, .array (elder ++ child :: younger)) :: after))
      (.object
        (before ++ (Field.children.key, .array (elder ++ edited :: younger)) :: after))
  | item {items elder younger : List Json} {child edited : Json}
      (children : given (.array items) .children =
        some (.array (elder ++ child :: younger)))
      (inert : Inert child edited) :
    Inert (.array items)
      (.array
        (items.set (Field.all.idxOf .children) (.array (elder ++ edited :: younger))))

/-- Values load alike if they have the form of a node alike and tell each field alike. -/
theorem ofJson_congr (hform : Form value ↔ Form other)
    (htells : ∀ field : Field, field.Tells node (given value field) ↔
      field.Tells node (given other field)) :
    ofJson value = .ok node ↔ ofJson other = .ok node := by
  rw [ofJson_eq_ok_iff, ofJson_eq_ok_iff, hform, forall_congr' htells]

theorem tells_insert_unknown_iff {before after : List (String × Json)} {key : String}
    {said : Json} (hunknown : Field.ofKey? key = none) :
    field.Tells node (given (.object (before ++ after)) field) ↔
      field.Tells node (given (.object (before ++ (key, said) :: after)) field) := by
  have hne : key ≠ field.key := by
    rintro rfl
    simp [Field.ofKey?_eq_some_iff.mpr rfl] at hunknown
  simp only [given, Json.lookup_insert_of_ne hne]

theorem tells_insert_null_iff {before after : List (String × Json)} {text : Field}
    (htext : text ∈ [.value, .alt, .title])
    (habsent : Json.lookup text.key (before ++ after) = none) :
    field.Tells node (given (.object (before ++ after)) field) ↔
      field.Tells node
        (given (.object (before ++ (text.key, .null) :: after)) field) := by
  by_cases hfield : text = field
  · subst hfield
    have hlater : Json.lookup text.key after = none := by
      rw [Json.lookup_append, Option.or_eq_none_iff] at habsent
      exact habsent.1
    simp only [given, habsent, Json.lookup_insert, hlater, Option.getD_none]
    exact tells_null_iff htext
  · have hne : text.key ≠ field.key := mt Field.key_inj.mp hfield
    simp only [given, Json.lookup_insert_of_ne hne]

section Child

variable {elder younger : List Json} {child edited : Json}

/-- One child may stand for another that loads alike. -/
theorem tells_children_congr
    (h : ∀ node, ofJson child = .ok node ↔ ofJson edited = .ok node) :
    Field.children.Tells node (some (.array (elder ++ child :: younger))) ↔
      Field.children.Tells node (some (.array (elder ++ edited :: younger))) := by
  have forall₂_iff {items others : List Json} {nodes : List Node}
      (hall : List.Forall₂
        (fun item other => ∀ node, ofJson item = .ok node ↔ ofJson other = .ok node)
        items others) :
      List.Forall₂ (fun item node => ofJson item = .ok node) items nodes ↔
        List.Forall₂ (fun item node => ofJson item = .ok node) others nodes := by
    induction hall generalizing nodes with
    | nil => simp
    | cons hitem _ ih => simp only [List.forall₂_cons_left_iff, hitem, ih]
  have hall : List.Forall₂
      (fun item other => ∀ node, ofJson item = .ok node ↔ ofJson other = .ok node)
      (elder ++ child :: younger) (elder ++ edited :: younger) :=
    List.rel_append (List.forall₂_same.mpr fun _ _ _ => Iff.rfl)
      (.cons h (List.forall₂_same.mpr fun _ _ _ => Iff.rfl))
  simp only [Field.Tells, Field.Reads, Outline.asList_of_value, Json.array.injEq,
    exists_eq_left']
  exact forall₂_iff hall

theorem tells_edit_member_iff {before after : List (String × Json)}
    (h : ∀ node, ofJson child = .ok node ↔ ofJson edited = .ok node) :
    field.Tells node (given (.object (before ++
        (Field.children.key, .array (elder ++ child :: younger)) :: after)) field) ↔
      field.Tells node (given (.object (before ++
        (Field.children.key, .array (elder ++ edited :: younger)) :: after)) field) := by
  by_cases hfield : .children = field
  · subst hfield
    simp only [given, Json.lookup_insert]
    cases Json.lookup Field.children.key after with
    | some later => exact Iff.rfl
    | none => exact tells_children_congr h
  · have hne : Field.children.key ≠ field.key := mt Field.key_inj.mp hfield
    simp only [given, Json.lookup_insert_of_ne hne]

theorem tells_edit_item_iff {items : List Json}
    (hchildren : given (.array items) .children =
      some (.array (elder ++ child :: younger)))
    (h : ∀ node, ofJson child = .ok node ↔ ofJson edited = .ok node) :
    field.Tells node (given (.array items) field) ↔
      field.Tells node (given (.array (items.set (Field.all.idxOf .children)
        (.array (elder ++ edited :: younger)))) field) := by
  by_cases hfield : .children = field
  · subst hfield
    obtain ⟨hlt, -⟩ := List.getElem?_eq_some_iff.mp hchildren
    rw [hchildren]
    simp only [given, List.getElem?_set_self hlt]
    exact tells_children_congr h
  · have hne : Field.all.idxOf .children ≠ Field.all.idxOf field := by
      cases field <;> first | decide | exact absurd rfl hfield
    simp only [given, List.getElem?_set_ne hne]

end Child

/-- Values load alike before and after an inert edit. -/
theorem ofJson_iff_of_inert (h : Inert value other) :
    ∀ node, ofJson value = .ok node ↔ ofJson other = .ok node := by
  induction h with
  | unknown hunknown =>
    exact fun node => ofJson_congr Iff.rfl fun field => tells_insert_unknown_iff hunknown
  | null htext habsent =>
    exact fun node => ofJson_congr Iff.rfl fun field =>
      tells_insert_null_iff htext habsent
  | member _ ih =>
    exact fun node => ofJson_congr Iff.rfl fun field => tells_edit_member_iff ih
  | item hchildren _ ih =>
    exact fun node => ofJson_congr (by simp [Form]) fun field =>
      tells_edit_item_iff hchildren ih

/-- Loading accepts exactly the values of the schema and answers with their readings, and
edits that it cannot see, done or undone, make no difference. -/
theorem loads_by_schema :
    (∀ value node, ofJson value = .ok node ↔ Conforms value ∧ reading value = node) ∧
      ∀ value other, Relation.EqvGen Inert value other →
        ∀ node, ofJson value = .ok node ↔ ofJson other = .ok node := by
  refine ⟨loads_iff, ?_⟩
  intro value other hedits
  induction hedits with
  | rel _ _ h => exact ofJson_iff_of_inert h
  | refl _ => exact fun _ => Iff.rfl
  | symm _ _ _ ih => exact fun node => (ih node).symm
  | trans _ _ _ _ _ ih ih' => exact fun node => (ih node).trans (ih' node)

/-- A text in an object that has some more members. -/
def strValue (more : List (String × Json)) : Json :=
  .object ([("type", .string "Str"), ("range", .array [.ofNat 0, .ofNat 4])] ++ more)

/-- A paragraph in an array, around one child. -/
def paragraphValue (child : Json) : Json :=
  .array [.string "Paragraph", .null, .null, .null, .array [child],
    .array [.ofNat 0, .ofNat 4]]

/-- A text without a value is given `null` as its value and a member that no node has. -/
theorem loads_by_schema_sample :
    let bare := paragraphValue (strValue [])
    let noted := paragraphValue (strValue [("value", .null), ("lang", .bool true)])
    let str : Node := { kind := .str, range := ⟨0, 4⟩, raw := "" }
    let paragraph : Node :=
      { kind := .paragraph, children := [str], range := ⟨0, 4⟩, raw := "" }
    ofJson bare = .ok paragraph ∧ (Conforms bare ∧ reading bare = paragraph) ∧
      Relation.EqvGen Inert noted bare ∧ ofJson noted = .ok paragraph := by
  intro bare noted str paragraph
  have hbare : ofJson bare = .ok paragraph := by decide +kernel
  have hnull : Inert bare (paragraphValue (strValue [("value", .null)])) :=
    @Inert.item _ [] [] _ _ rfl
      (@Inert.null [("type", _), ("range", _)] [] .value (by decide) rfl)
  have hlang : Inert (paragraphValue (strValue [("value", .null)])) noted :=
    @Inert.item _ [] [] _ _ rfl
      (@Inert.unknown [("type", _), ("range", _), ("value", _)] [] "lang" _ (by decide))
  have hedits : Relation.EqvGen Inert noted bare :=
    .symm _ _ (.trans _ _ _ (.rel _ _ hnull) (.rel _ _ hlang))
  exact ⟨hbare, (loads_by_schema.1 bare paragraph).mp hbare, hedits,
    (loads_by_schema.2 noted bare hedits paragraph).mpr hbare⟩

end Node

end ProseMap
