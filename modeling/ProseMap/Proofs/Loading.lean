import ProseMap.Node.Json
import ProseMap.Proofs.Readings

/-!
# Loading trees

When a tree is read, and which (`Node.read_eq_ok_iff`). Both forms of a saved node, the
object and the array, are lists of entries, each the outline that a field is read from. An
outline is regular if nothing beside its entries is in the way, and its entries describe a
node field by field. -/

namespace ProseMap.Node

open Json (Outline Token Source)

variable {source inner : Source} {outline : Outline} {node other draft : Node}
  {field : Field}

namespace Field

theorem ofKey?_eq_some_iff {key : String} :
    ofKey? key = some field ↔ field.key = key := by
  constructor
  · intro h
    simpa using List.find?_some h
  · rintro rfl
    cases field <;> rfl

theorem key_inj {a b : Field} : a.key = b.key ↔ a = b := by
  cases a <;> cases b <;> decide

theorem nodup_all : all.Nodup := by decide

/-! ## Nodes field by field -/

/-- Whether two nodes have the same in a field. -/
def Same (a b : Node) : Field → Prop
  | .kind => a.kind = b.kind
  | .value => a.value = b.value
  | .alt => a.alt = b.alt
  | .title => a.title = b.title
  | .children => a.children = b.children
  | .range => a.range = b.range
  | .raw => a.raw = b.raw

/-- A node with one field taken from another. -/
def graft (donor node : Node) : Field → Node
  | .kind => { node with kind := donor.kind }
  | .value => { node with value := donor.value }
  | .alt => { node with alt := donor.alt }
  | .title => { node with title := donor.title }
  | .children => { node with children := donor.children }
  | .range => { node with range := donor.range }
  | .raw => { node with raw := donor.raw }

@[simp] theorem Same.refl (node : Node) (field : Field) : Same node node field := by
  cases field <;> rfl

theorem Same.symm {a b : Node} (h : Same a b field) : Same b a field := by
  cases field <;> exact Eq.symm h

theorem Same.trans {a b c : Node} (hab : Same a b field) (hbc : Same b c field) :
    Same a c field := by
  cases field <;> exact Eq.trans hab hbc

theorem same_graft (donor node : Node) (field : Field) :
    Same (graft donor node field) donor field := by
  cases field <;> rfl

theorem same_graft_of_ne (donor node : Node) {field other : Field} (h : other ≠ field) :
    Same (graft donor node field) node other := by
  cases field <;> cases other <;> first | rfl | exact absurd rfl h

end Field

theorem ext_of_same {a b : Node} (h : ∀ field, Field.Same a b field) : a = b := by
  obtain ⟨_, _, _, _, _, _, _⟩ := a
  obtain ⟨_, _, _, _, _, _, _⟩ := b
  obtain rfl := h .kind
  obtain rfl := h .value
  obtain rfl := h .alt
  obtain rfl := h .title
  obtain rfl := h .children
  obtain rfl := h .range
  obtain rfl := h .raw
  rfl

/-! ## Reading one field -/

namespace Field

/-- Whether an outline reads as what a node has in a field. -/
def Reads (source : Source) (outline : Outline) (node : Node) : Field → Prop
  | .kind => outline.asString.map Kind.ofName = .ok node.kind
  | .value => outline.asOptionalString = .ok node.value
  | .alt => outline.asOptionalString = .ok node.alt
  | .title => outline.asOptionalString = .ok node.title
  | .children => outline.asList read source = .ok node.children
  | .range => Span.read source outline = .ok node.range
  | .raw => outline.asString = .ok node.raw

theorem Reads.congr {a b : Node} (h : Same a b field) :
    Reads source outline a field ↔ Reads source outline b field := by
  cases field <;> simp only [Reads, Same] at h ⊢ <;> rw [h]

end Field

theorem readAll_eq_mapM (items : List Outline) :
    readAll source items = items.mapM (read source) := by
  induction items with
  | nil => rfl
  | cons item rest ih => rw [readAll, ih, List.mapM_cons]

/-- Children are read like every other list. -/
theorem readField_children_eq_ok_iff :
    readField source draft .children outline = .ok node ↔
      ∃ children, outline.asList read source = .ok children ∧
        { draft with children } = node := by
  cases outline with
  | array items ending =>
    simp only [readField, Outline.asList, readAll_eq_mapM, Json.bind_eq_ok_iff,
      Json.pure_eq_ok_iff]
    constructor
    · rintro ⟨inner, hinner, children, hchildren, done, hdone, hnode⟩
      exact ⟨children, ⟨inner, hinner, children, hchildren, done, hdone, rfl⟩, hnode⟩
    · rintro ⟨_, ⟨inner, hinner, children, hchildren, done, hdone, rfl⟩, hnode⟩
      exact ⟨inner, hinner, children, hchildren, done, hdone, hnode⟩
  | _ => simp [readField, Outline.asList, Outline.mismatch_ne_ok]

/-- Reading a field sets that field and no other. -/
theorem readField_eq_ok_iff :
    readField source draft field outline = .ok node ↔
      field.Reads source outline node ∧ Field.graft node draft field = node := by
  -- a result in the field, whichever it is
  have of_result {α : Type} {result : Except Json.Error α} {set : α → Node}
      {get : Node → α} (hget : ∀ a, get (set a) = a) :
      (∃ a, result = .ok a ∧ set a = node) ↔
        result = .ok (get node) ∧ set (get node) = node := by
    constructor
    · rintro ⟨a, ha, rfl⟩
      rw [hget]
      exact ⟨ha, rfl⟩
    · rintro ⟨ha, hset⟩
      exact ⟨_, ha, hset⟩
  cases field with
  | children => exact readField_children_eq_ok_iff.trans (of_result fun _ => rfl)
  | kind =>
    simp only [readField, Json.bind_eq_ok_iff, Json.pure_eq_ok_iff, Field.Reads,
      Field.graft, Json.map_eq_ok_iff]
    constructor
    · rintro ⟨name, hname, rfl⟩
      exact ⟨⟨name, hname, rfl⟩, rfl⟩
    · rintro ⟨⟨name, hname, hkind⟩, hnode⟩
      exact ⟨name, hname, hkind ▸ hnode⟩
  | value | alt | title | range | raw =>
    simp only [readField, Json.bind_eq_ok_iff, Json.pure_eq_ok_iff]
    exact of_result fun _ => rfl

/-! ## Reading the entries of a node -/

/-- The entries among the members of an object: those with the key of a field. -/
def knownMembers (members : List (Token String × Outline)) : List (Field × Outline) :=
  members.filterMap fun member =>
    (member.1.reading.toOption.bind Field.ofKey?).map (·, member.2)

/-- The fields that a node is read from, each with what stands for it. -/
def entries : Outline → List (Field × Outline)
  | .object members _ => knownMembers members
  | .array items _ => Field.all.zip items
  | _ => []

/-- Reads entries in their order. -/
def fill (source : Source) (draft : Draft) :
    List (Field × Outline) → Except Json.Error Draft
  | [] => .ok draft
  | (field, outline) :: rest => do
    let node ← readField source draft.node field outline
    fill source ⟨field :: draft.seen, node⟩ rest

/-- With no field read twice, the order does not matter: each entry reads as what the node
has in its field, and in the other fields the node is as it was. -/
theorem fill_eq_ok_iff {found : List (Field × Outline)} {draft done : Draft}
    (hdistinct : (found.map Prod.fst).Nodup) :
    fill source draft found = .ok done ↔
      done.seen = (found.map Prod.fst).reverse ++ draft.seen ∧
        (∀ entry ∈ found, entry.1.Reads source entry.2 done.node) ∧
          ∀ field ∉ found.map Prod.fst, Field.Same done.node draft.node field := by
  induction found generalizing draft with
  | nil =>
    obtain ⟨seen, node⟩ := draft
    obtain ⟨seen', node'⟩ := done
    simp only [fill, Except.ok.injEq, Draft.mk.injEq, List.map_nil, List.reverse_nil,
      List.nil_append, List.not_mem_nil, not_false_eq_true, forall_const, false_implies,
      implies_true, true_and]
    constructor
    · rintro ⟨rfl, rfl⟩
      exact ⟨rfl, Field.Same.refl _⟩
    · rintro ⟨rfl, hsame⟩
      exact ⟨rfl, (ext_of_same hsame).symm⟩
  | cons entry rest ih =>
    obtain ⟨field, outline⟩ := entry
    obtain ⟨hfield, hrest⟩ := List.nodup_cons.mp hdistinct
    simp only [fill, Json.bind_eq_ok_iff, readField_eq_ok_iff, ih hrest, List.map_cons,
      List.reverse_cons, List.append_assoc, List.singleton_append, List.forall_mem_cons]
    constructor
    · rintro ⟨node, ⟨hreads, hnode⟩, hseen, hall, hsame⟩
      refine ⟨hseen, ⟨(Field.Reads.congr (hsame field hfield)).mpr hreads, hall⟩, ?_⟩
      intro other hnot
      obtain ⟨hne, hother⟩ := not_or.mp (mt List.mem_cons.mpr hnot)
      have hkept : Field.Same node draft.node other :=
        hnode ▸ Field.same_graft_of_ne _ _ hne
      exact (hsame other hother).trans hkept
    · rintro ⟨hseen, ⟨hreads, hall⟩, hsame⟩
      refine ⟨Field.graft done.node draft.node field, ⟨?_, ?_⟩, hseen, hall, ?_⟩
      · exact (Field.Reads.congr (Field.same_graft _ _ _)).mpr hreads
      · cases field <;> rfl
      · intro other hother
        by_cases hne : other = field
        · subst hne
          exact (Field.same_graft _ _ _).symm
        · have hnot : other ∉ field :: rest.map Prod.fst := by simp [hne, hother]
          exact (hsame other hnot).trans (Field.same_graft_of_ne _ _ hne).symm

/-- A member can be read if its key can, and what stands under the key of no field can be
passed over. -/
def Passable (member : Token String × Outline) : Prop :=
  ∃ key, member.1.reading = .ok key ∧ (Field.ofKey? key = none → member.2.skip = .ok ())

theorem readMembers_unknown_eq_ok_iff {token : Token String} {key : String}
    {rest : List (Token String × Outline)} {draft done : Draft}
    (hkey : token.reading = .ok key) (hunknown : Field.ofKey? key = none) :
    readMembers source draft ((token, outline) :: rest) = .ok done ↔
      outline.skip = .ok () ∧ readMembers source draft rest = .ok done := by
  simp only [readMembers, Json.bind_eq_ok_iff, Json.unflawed_eq_ok_iff, hkey,
    Except.ok.injEq, exists_eq_left', hunknown]
  constructor
  · rintro ⟨⟨⟩, hskip, hrest⟩
    exact ⟨hskip, hrest⟩
  · rintro ⟨hskip, hrest⟩
    exact ⟨(), hskip, hrest⟩

theorem readMembers_known_eq_ok_iff {token : Token String} {key : String}
    {rest : List (Token String × Outline)} {draft done : Draft}
    (hkey : token.reading = .ok key) (hknown : Field.ofKey? key = some field) :
    readMembers source draft ((token, outline) :: rest) = .ok done ↔
      field ∉ draft.seen ∧ ∃ node, readField source draft.node field outline = .ok node ∧
        readMembers source ⟨field :: draft.seen, node⟩ rest = .ok done := by
  by_cases hseen : field ∈ draft.seen
  · simp [readMembers, Json.bind_eq_ok_iff, Json.unflawed_eq_ok_iff, hkey, hknown, hseen,
      Json.throw_ne_ok]
  · simp [readMembers, Json.bind_eq_ok_iff, Json.unflawed_eq_ok_iff, hkey, hknown, hseen]

theorem readMembers_eq_ok_iff {members : List (Token String × Outline)}
    {draft done : Draft} :
    readMembers source draft members = .ok done ↔
      (∀ member ∈ members, Passable member) ∧
        (((knownMembers members).map Prod.fst).Nodup ∧
          ∀ field ∈ (knownMembers members).map Prod.fst, field ∉ draft.seen) ∧
          fill source draft (knownMembers members) = .ok done := by
  induction members generalizing draft with
  | nil => simp [readMembers, knownMembers, fill]
  | cons member rest ih =>
    obtain ⟨token, outline⟩ := member
    cases hkey : token.reading with
    | error flaw =>
      simp [readMembers, Passable, hkey, Json.unflawed, Except.mapError, bind,
        Except.bind]
    | ok key =>
      cases hfield : Field.ofKey? key with
      | none =>
        have hmembers : knownMembers ((token, outline) :: rest) = knownMembers rest := by
          simp [knownMembers, hkey, hfield, Except.toOption]
        have hpassable : Passable (token, outline) ↔ outline.skip = .ok () := by
          simp [Passable, hkey, hfield]
        simp only [readMembers_unknown_eq_ok_iff hkey hfield, ih, hmembers,
          List.forall_mem_cons, hpassable, and_assoc]
      | some field =>
        have hmembers : knownMembers ((token, outline) :: rest) =
            (field, outline) :: knownMembers rest := by
          simp [knownMembers, hkey, hfield, Except.toOption]
        have hpassable : Passable (token, outline) := ⟨key, hkey, by simp [hfield]⟩
        simp only [readMembers_known_eq_ok_iff hkey hfield, hmembers, ih, fill,
          Json.bind_eq_ok_iff, List.forall_mem_cons, List.map_cons, List.nodup_cons,
          hpassable, true_and]
        constructor
        · rintro ⟨hseen, node, hnode, hrest, ⟨hdistinct, hunseen⟩, hfill⟩
          refine ⟨hrest,
            ⟨⟨fun hmem => hunseen _ hmem List.mem_cons_self, hdistinct⟩, hseen, ?_⟩,
            node, hnode, hfill⟩
          intro other hother hmem
          exact hunseen other hother (List.mem_cons_of_mem _ hmem)
        · rintro ⟨hrest, ⟨⟨hnew, hdistinct⟩, hseen, hunseen⟩, node, hnode, hfill⟩
          refine ⟨hseen, node, hnode, hrest, ⟨hdistinct, ?_⟩, hfill⟩
          intro other hother hmem
          rcases List.mem_cons.mp hmem with rfl | hmem
          · exact hnew hother
          · exact hunseen other hother hmem

theorem readItems_eq_ok_iff {count : Nat} {fields : List Field} {items : List Outline}
    {draft done : Draft} :
    readItems source count draft fields items = .ok done ↔
      items.length ≤ fields.length ∧ fill source draft (fields.zip items) = .ok done := by
  induction fields generalizing items draft with
  | nil => cases items <;> simp [readItems, fill]
  | cons field fields ih =>
    cases items with
    | nil => simp [readItems, fill]
    | cons item rest =>
      simp only [readItems, List.zip_cons_cons, fill, Json.bind_eq_ok_iff, ih,
        List.length_cons, Nat.add_le_add_iff_right]
      constructor
      · rintro ⟨node, hnode, hlength, hfill⟩
        exact ⟨hlength, node, hnode, hfill⟩
      · rintro ⟨hlength, node, hnode, hfill⟩
        exact ⟨node, hnode, hlength, hfill⟩

theorem finish_eq_ok_iff {draft : Draft} {absent : Field → Json.Error} :
    draft.finish absent = .ok node ↔
      (∀ field ∈ Field.required, field ∈ draft.seen) ∧ draft.node = node := by
  unfold Draft.finish
  cases h : Field.required.find? (· ∉ draft.seen) with
  | none =>
    have hseen : ∀ field ∈ Field.required, field ∈ draft.seen := by simpa using h
    rw [Except.ok.injEq, iff_and_self]
    exact fun _ => hseen
  | some field =>
    have hunseen : field ∉ draft.seen := by simpa using List.find?_some h
    simp only [reduceCtorEq, false_iff, not_and]
    intro hseen
    exact absurd (hseen field (List.mem_of_find?_eq_some h)) hunseen

/-! ## Reading a node -/

/-- An outline with nothing wrong beside its entries. -/
def Regular : Outline → Prop
  | .object members ending => (∀ member ∈ members, Passable member) ∧ ending = .ok ()
  | .array items ending => items.length ≤ Field.all.length ∧ ending = .ok ()
  | _ => False

/-- What a node has in the fields that nothing stands for. -/
def blank : Node :=
  ({} : Draft).node

/-- A node is what its entries say, with no field said twice and the required ones
said. -/
structure Describes (source : Source) (found : List (Field × Outline)) (node : Node) :
    Prop where
  distinct : (found.map Prod.fst).Nodup
  required : ∀ field ∈ Field.required, field ∈ found.map Prod.fst
  present : ∀ entry ∈ found, entry.1.Reads source entry.2 node
  absent : ∀ field ∉ found.map Prod.fst, Field.Same node blank field

theorem describes_iff_fill {found : List (Field × Outline)}
    (hdistinct : (found.map Prod.fst).Nodup) {absent : Field → Json.Error} :
    Describes source found node ↔
      ∃ done, fill source {} found = .ok done ∧ done.finish absent = .ok node := by
  simp only [fill_eq_ok_iff hdistinct, finish_eq_ok_iff]
  constructor
  · intro h
    refine ⟨⟨(found.map Prod.fst).reverse, node⟩, ⟨by simp, h.present, h.absent⟩, ?_, rfl⟩
    intro field hfield
    exact List.mem_reverse.mpr (h.required field hfield)
  · rintro ⟨done, ⟨hseen, hpresent, habsent⟩, hrequired, rfl⟩
    refine ⟨hdistinct, ?_, hpresent, habsent⟩
    intro field hfield
    simpa [hseen] using hrequired field hfield

theorem map_fst_zip_sublist (fields : List Field) (items : List Outline) :
    ((fields.zip items).map Prod.fst).Sublist fields := by
  induction fields generalizing items with
  | nil => simp
  | cons field fields ih =>
    cases items with
    | nil => simp
    | cons item rest => exact (ih rest).cons_cons field

theorem distinct_zip (items : List Outline) :
    ((Field.all.zip items).map Prod.fst).Nodup :=
  Field.nodup_all.sublist (map_fst_zip_sublist _ items)

/-- When a node is read, and which. -/
theorem read_eq_ok_iff :
    read source outline = .ok node ↔
      ∃ inner, source.enter = .ok inner ∧ Regular outline ∧
        Describes inner (entries outline) node := by
  cases outline with
  | object members ending =>
    simp only [read, Json.bind_eq_ok_iff, Json.unflawed_eq_ok_iff, readMembers_eq_ok_iff,
      Regular, entries]
    constructor
    · rintro ⟨inner, hinner, done, ⟨hpassable, ⟨hdistinct, -⟩, hfill⟩, ⟨⟩,
        hending, hfinish⟩
      exact ⟨inner, hinner, ⟨hpassable, hending⟩,
        (describes_iff_fill hdistinct).mpr ⟨done, hfill, hfinish⟩⟩
    · rintro ⟨inner, hinner, ⟨hpassable, hending⟩, hdescribes⟩
      obtain ⟨done, hfill, hfinish⟩ :=
        (describes_iff_fill hdescribes.distinct).mp hdescribes
      exact ⟨inner, hinner, done, ⟨hpassable, ⟨hdescribes.distinct, by simp⟩, hfill⟩,
        (), hending, hfinish⟩
  | array items ending =>
    have hdistinct := distinct_zip items
    simp only [read, Json.bind_eq_ok_iff, Json.unflawed_eq_ok_iff, readItems_eq_ok_iff,
      Regular, entries]
    constructor
    · rintro ⟨inner, hinner, done, ⟨hlength, hfill⟩, ⟨⟩, hending, hfinish⟩
      exact ⟨inner, hinner, ⟨hlength, hending⟩,
        (describes_iff_fill hdistinct).mpr ⟨done, hfill, hfinish⟩⟩
    · rintro ⟨inner, hinner, ⟨hlength, hending⟩, hdescribes⟩
      obtain ⟨done, hfill, hfinish⟩ := (describes_iff_fill hdistinct).mp hdescribes
      exact ⟨inner, hinner, done, ⟨hlength, hfill⟩, (), hending, hfinish⟩
  | _ => simp [read, Regular, Json.Outline.mismatch_ne_ok]

/-! ## Nodes within a node -/

theorem mem_knownMembers_iff {members : List (Token String × Outline)}
    {outline : Outline} :
    (field, outline) ∈ knownMembers members ↔
      ∃ token, (token, outline) ∈ members ∧ token.reading = .ok field.key := by
  simp only [knownMembers, List.mem_filterMap, Option.map_eq_some_iff,
    Option.bind_eq_some_iff, Field.ofKey?_eq_some_iff, Prod.mk.injEq, Prod.exists]
  constructor
  · rintro ⟨token, _, hmem, _, ⟨key, hreading, rfl⟩, rfl, rfl⟩
    refine ⟨token, hmem, ?_⟩
    cases h : token.reading <;> simp_all [Except.toOption]
  · rintro ⟨token, hmem, hreading⟩
    exact ⟨token, outline, hmem, field,
      ⟨field.key, by simp [hreading, Except.toOption], rfl⟩, rfl, rfl⟩

theorem sizeOf_lt_of_mem_entries {inner : Outline}
    (h : (field, inner) ∈ entries outline) :
    sizeOf inner < sizeOf outline := by
  cases outline with
  | object members ending =>
    obtain ⟨token, hmem, -⟩ := mem_knownMembers_iff.mp h
    have hlt := List.sizeOf_lt_of_mem hmem
    simp at hlt ⊢
    omega
  | array items ending =>
    have hlt := List.sizeOf_lt_of_mem (List.of_mem_zip h).2
    simp at hlt ⊢
    omega
  | _ => cases h

/-- To prove something of an outline it is enough to prove it from the same about its
children. -/
theorem induction_on_entries {motive : Outline → Prop}
    (step : ∀ outline,
      (∀ items ending, (.children, .array items ending) ∈ entries outline →
        ∀ item ∈ items, motive item) → motive outline)
    (outline : Outline) : motive outline := by
  apply step
  intro items ending hentry item hitem
  have hitems : sizeOf item < sizeOf (Outline.array items ending) := by
    have := List.sizeOf_lt_of_mem hitem
    simp
    omega
  have := sizeOf_lt_of_mem_entries hentry
  exact induction_on_entries step item
termination_by sizeOf outline

/-- A child was read from an item of what stands for the children. -/
theorem Describes.exists_item {found : List (Field × Outline)} {child : Node}
    (h : Describes source found node) (hchild : child ∈ node.children) :
    ∃ items ending inner, (.children, .array items ending) ∈ found ∧
      source.enter = .ok inner ∧
      ∃ item ∈ items, read inner item = .ok child := by
  by_cases hfield : .children ∈ found.map Prod.fst
  · obtain ⟨⟨_, list⟩, hentry, rfl⟩ := List.mem_map.mp hfield
    obtain ⟨items, inner, rfl, hinner, hall⟩ :=
      Outline.asList_eq_ok_iff.mp (h.present _ hentry)
    obtain ⟨item, hitem, hread⟩ := Json.exists_of_forall₂ hall hchild
    exact ⟨items, _, inner, hentry, hinner, item, hitem, hread⟩
  · have hnil : node.children = [] := h.absent .children hfield
    simp [hnil] at hchild

/-! ## Nodes in values -/

/-- An object has an entry for a field if it has a member with the key, and the last one
counts. -/
theorem mem_entries_ofJson_object_iff {members : List (String × Json)} :
    (field, outline) ∈ entries (.ofJson (.object members)) ↔
      ∃ value, Json.lookup field.key members = some value ∧ outline = .ofJson value := by
  rw [Outline.ofJson_object]
  unfold entries
  rw [mem_knownMembers_iff]
  simp only [Outline.mem_membersOf_iff]
  constructor
  · rintro ⟨_, ⟨key, value, hvalue, rfl, rfl⟩, hkey⟩
    obtain rfl : key = field.key := by simpa [Token.sound] using hkey
    exact ⟨value, hvalue, rfl⟩
  · rintro ⟨value, hvalue, rfl⟩
    exact ⟨.sound field.key, ⟨field.key, value, hvalue, rfl, rfl⟩, rfl⟩

theorem map_fst_knownMembers (members : List (Token String × Outline)) :
    (knownMembers members).map Prod.fst =
      members.filterMap fun member => member.1.reading.toOption.bind Field.ofKey? := by
  rw [knownMembers, List.map_filterMap]
  congr 1
  funext member
  simp [Option.map_map, Function.comp_def]

theorem distinct_entries_ofJson_object (members : List (String × Json)) :
    ((entries (.ofJson (.object members))).map Prod.fst).Nodup := by
  rw [Outline.ofJson_object, entries, map_fst_knownMembers, Outline.membersOf, List.Nodup,
    List.pairwise_filterMap, List.pairwise_map]
  refine (Json.ascending_sortMembers _).imp ?_
  intro member other hlt field hfield field' hfield' heq
  have hkey : field.key = member.1 := Field.ofKey?_eq_some_iff.mp hfield
  have hkey' : field'.key = other.1 := Field.ofKey?_eq_some_iff.mp hfield'
  rw [← hkey, ← hkey', heq] at hlt
  exact String.lt_irrefl _ hlt

/-- Nothing in an object is in the way of its entries. -/
theorem regular_ofJson_object (members : List (String × Json)) :
    Regular (.ofJson (.object members)) := by
  rw [Outline.ofJson_object]
  refine ⟨?_, rfl⟩
  rintro ⟨token, outline⟩ hmember
  obtain ⟨key, value, -, rfl, rfl⟩ := Outline.mem_membersOf_iff.mp hmember
  exact ⟨key, rfl, fun _ => Outline.skip_ofJson value⟩

end ProseMap.Node
