import Mathlib.Data.List.Nodup
import ProseMap.Proofs.Loading
import ProseMap.Proofs.Outlines

/-!
# The two loaders

A tree can be read from a text as it comes, or from the value that the text stands for.
The two differ in one thing only: an object in the text can repeat a member, of which the
value keeps the last. Where that is a member of a node, reading the text fails. -/

namespace ProseMap.Node

open Json (Outline Token Source Document)

variable {source inner : Source} {outline : Outline} {value : Json} {node : Node}
  {field : Field}

/-! ## Nodes of an outline -/

/-- The outlines that stand where a node is wanted. -/
inductive NodeAt : Outline → Outline → Prop where
  | root (outline : Outline) : NodeAt outline outline
  | child {outline item place : Outline} {items : List Outline}
      {ending : Except Json.Flaw Unit}
      (entry : (.children, .array items ending) ∈ entries outline) (mem : item ∈ items)
      (below : NodeAt item place) : NodeAt outline place

/-- An object with two members for one field. -/
def RepeatsMember : Outline → Prop
  | .object members _ => ¬ ((knownMembers members).map Prod.fst).Nodup
  | _ => False

/-- An outline in which no node repeats a member. -/
def Single (outline : Outline) : Prop :=
  ∀ place, NodeAt outline place → ¬ RepeatsMember place

theorem distinct_iff_not_repeats :
    ((entries outline).map Prod.fst).Nodup ↔ ¬ RepeatsMember outline := by
  cases outline with
  | object members ending => exact not_not.symm
  | array items ending =>
    simpa [entries, RepeatsMember] using distinct_zip items
  | _ => simp [entries, RepeatsMember]

/-- The items of an array are nodes in which none repeats a member. -/
def SingleItems (outline : Outline) : Prop :=
  ∀ items ending, outline = .array items ending → ∀ item ∈ items, Single item

theorem single_iff :
    Single outline ↔ ¬ RepeatsMember outline ∧
      ∀ place, (.children, place) ∈ entries outline → SingleItems place := by
  constructor
  · intro h
    refine ⟨h outline (.root outline), ?_⟩
    rintro _ hentry items ending rfl item hitem place hplace
    exact h place (.child hentry hitem hplace)
  · rintro ⟨hroot, hbelow⟩ place hplace
    cases hplace with
    | root => exact hroot
    | child hentry hitem hplace => exact hbelow _ hentry _ _ rfl _ hitem _ hplace

/-! ## Entries of a text and of its value -/

/-- The entries of a text, and those of the value that the text stands for: the same
fields, and for each the value of what stands in the text. -/
structure Corresponds (source : Source) (found kept : List (Field × Outline)) : Prop where
  to_kept : ∀ field outline, (field, outline) ∈ found →
    ∃ value, outline.toJson source = .ok value ∧ (field, .ofJson value) ∈ kept
  to_found : ∀ field place, (field, place) ∈ kept →
    ∃ outline value, (field, outline) ∈ found ∧ outline.toJson source = .ok value ∧
      place = .ofJson value

theorem corresponds_zip {fields : List Field} {items : List Outline} {values : List Json}
    (h : List.Forall₂ (fun item value => item.toJson source = .ok value) items values) :
    Corresponds source (fields.zip items) (fields.zip (values.map .ofJson)) := by
  induction h generalizing fields with
  | nil => exact ⟨by simp, by simp⟩
  | @cons item value items values hvalue _ ih =>
    cases fields with
    | nil => exact ⟨by simp, by simp⟩
    | cons first fields =>
      constructor
      · intro field outline hmem
        rcases List.mem_cons.mp hmem with heq | hmem
        · obtain ⟨rfl, rfl⟩ := Prod.mk.inj heq
          exact ⟨value, hvalue, List.mem_cons_self⟩
        · obtain ⟨v, hv, hkept⟩ := ih.to_kept field outline hmem
          exact ⟨v, hv, List.mem_cons_of_mem _ hkept⟩
      · intro field place hmem
        rcases List.mem_cons.mp hmem with heq | hmem
        · obtain ⟨rfl, rfl⟩ := Prod.mk.inj heq
          exact ⟨item, value, List.mem_cons_self, hvalue, rfl⟩
        · obtain ⟨o, v, hfound, hv, rfl⟩ := ih.to_found field place hmem
          exact ⟨o, v, List.mem_cons_of_mem _ hfound, hv, rfl⟩

/-- Where no member repeats, the value keeps them all. -/
theorem corresponds_members {members : List (Token String × Outline)}
    {values : List (String × Json)}
    (h : List.Forall₂ (fun member value => member.1.reading = .ok value.1 ∧
      member.2.toJson source = .ok value.2) members values)
    (hdistinct : ((knownMembers members).map Prod.fst).Nodup) :
    Corresponds source (knownMembers members) (entries (.ofJson (.object values))) := by
  -- what the value keeps under the key of a field stands in the text
  have of_lookup {field : Field} {value : Json}
      (hvalue : Json.lookup field.key values = some value) :
      ∃ outline, (field, outline) ∈ knownMembers members ∧
        outline.toJson source = .ok value := by
    obtain ⟨⟨token, outline⟩, hmember, hkey, hread⟩ :=
      Json.exists_of_forall₂ h (Json.mem_of_lookup hvalue)
    exact ⟨outline, mem_knownMembers_iff.mpr ⟨token, hmember, hkey⟩, hread⟩
  constructor
  · intro field outline hmem
    obtain ⟨token, hmember, hkey⟩ := mem_knownMembers_iff.mp hmem
    obtain ⟨⟨key, value⟩, hvalue, hkey', hread⟩ := Json.exists_of_forall₂_left h hmember
    obtain rfl : key = field.key := Except.ok.inj (hkey'.symm.trans hkey)
    obtain ⟨last, hlast⟩ := Json.exists_lookup_of_mem hvalue
    obtain ⟨other, hother, hread'⟩ := of_lookup hlast
    obtain rfl : other = outline :=
      congrArg Prod.snd (List.inj_on_of_nodup_map hdistinct hother hmem rfl)
    exact ⟨last, hread', mem_entries_ofJson_object_iff.mpr ⟨last, hlast, rfl⟩⟩
  · intro field place hmem
    obtain ⟨value, hvalue, rfl⟩ := mem_entries_ofJson_object_iff.mp hmem
    obtain ⟨outline, hfound, hread⟩ := of_lookup hvalue
    exact ⟨outline, value, hfound, hread, rfl⟩

/-! ## Reading a text and its value -/

theorem skip_of_mem_entries {place : Outline} (h : (field, place) ∈ entries outline)
    (hskip : outline.skip = .ok ()) : place.skip = .ok () := by
  cases outline with
  | object members ending =>
    obtain ⟨token, hmember, -⟩ := mem_knownMembers_iff.mp h
    exact ((Outline.skip_object_eq_ok_iff.mp hskip).1 _ hmember).2
  | array items ending =>
    exact (Outline.skip_array_eq_ok_iff.mp hskip).1 _ (List.of_mem_zip h).2
  | _ => cases h

/-- A text is read as its value is, if no node in it repeats a member, and else not at
all. -/
def ReadAlike (outline : Outline) : Prop :=
  ∀ source value node, outline.toJson source = .ok value → outline.skip = .ok () →
    (read source outline = .ok node ↔
      read .value (.ofJson value) = .ok node ∧ Single outline)

theorem readAll_iff {items : List Outline} {values : List Json} {nodes : List Node}
    (hvalues : List.Forall₂ (fun item value => item.toJson source = .ok value)
      items values)
    (halike : ∀ item ∈ items, ReadAlike item)
    (hskip : ∀ item ∈ items, item.skip = .ok ()) :
    List.Forall₂ (fun item node => read source item = .ok node) items nodes ↔
      List.Forall₂ (fun value node => read .value (.ofJson value) = .ok node)
        values nodes ∧
        ∀ item ∈ items, Single item := by
  induction hvalues generalizing nodes with
  | nil => simp
  | @cons item value items values hvalue _ ih =>
    obtain ⟨halike, halikes⟩ := List.forall_mem_cons.mp halike
    obtain ⟨hskip, hskips⟩ := List.forall_mem_cons.mp hskip
    simp only [List.forall₂_cons_left_iff, List.forall_mem_cons, ih halikes hskips,
      halike source value _ hvalue hskip]
    constructor
    · rintro ⟨node, more, ⟨hnode, hsingle⟩, ⟨hmore, hsingles⟩, rfl⟩
      exact ⟨⟨node, more, hnode, hmore, rfl⟩, hsingle, hsingles⟩
    · rintro ⟨⟨node, more, hnode, hmore, rfl⟩, hsingle, hsingles⟩
      exact ⟨node, more, ⟨hnode, hsingle⟩, ⟨hmore, hsingles⟩, rfl⟩

theorem asList_read_iff {nodes : List Node} (hvalue : outline.toJson source = .ok value)
    (halike : ∀ items ending, outline = .array items ending →
      ∀ item ∈ items, ReadAlike item)
    (hskip : outline.skip = .ok ()) :
    outline.asList read source = .ok nodes ↔
      (Outline.ofJson value).asList read .value = .ok nodes ∧ SingleItems outline := by
  cases Outline.denotes_of_toJson hvalue with
  | @array items values inner hinner hall =>
    have hsingle : SingleItems (.array items (.ok ())) ↔ ∀ item ∈ items, Single item := by
      simp [SingleItems]
    rw [Outline.ofJson_array, Outline.asList_array_iff hinner,
      Outline.asList_array_iff rfl, List.forall₂_map_left_iff, hsingle]
    exact readAll_iff hall (halike items _ rfl) (Outline.skip_array_eq_ok_iff.mp hskip).1
  | _ => simp [Outline.asList_eq_ok_iff, Outline.ofJson]

theorem reads_iff (hvalue : outline.toJson source = .ok value)
    (halike : field = .children → ∀ items ending, outline = .array items ending →
      ∀ item ∈ items, ReadAlike item)
    (hskip : outline.skip = .ok ()) :
    field.Reads source outline node ↔
      field.Reads .value (.ofJson value) node ∧
        (field = .children → SingleItems outline) := by
  cases field with
  | children =>
    simp only [Field.Reads, true_imp_iff]
    exact asList_read_iff hvalue (halike rfl) hskip
  | kind => simp [Field.Reads, Json.map_eq_ok_iff, Outline.asString_ofJson_iff hvalue]
  | raw => simp [Field.Reads, Outline.asString_ofJson_iff hvalue]
  | range => simp [Field.Reads, Span.read_eq_ok_iff, Outline.asPair_ofJson_iff hvalue]
  | value | alt | title => simp [Field.Reads, Outline.asOptionalString_ofJson_iff hvalue]

theorem describes_iff {found kept : List (Field × Outline)}
    (h : Corresponds source found kept) (hfound : (found.map Prod.fst).Nodup)
    (hkept : (kept.map Prod.fst).Nodup)
    (hreads : ∀ field outline value, (field, outline) ∈ found →
      outline.toJson source = .ok value →
      (field.Reads source outline node ↔
        field.Reads .value (.ofJson value) node ∧
          (field = .children → SingleItems outline))) :
    Describes source found node ↔
      Describes .value kept node ∧
        ∀ outline, (.children, outline) ∈ found → SingleItems outline := by
  have hfields (field : Field) :
      field ∈ found.map Prod.fst ↔ field ∈ kept.map Prod.fst := by
    simp only [List.mem_map, Prod.exists, exists_and_right, exists_eq_right]
    constructor
    · rintro ⟨outline, hmem⟩
      obtain ⟨value, -, hmem⟩ := h.to_kept field outline hmem
      exact ⟨_, hmem⟩
    · rintro ⟨place, hmem⟩
      obtain ⟨outline, _, hmem, -⟩ := h.to_found field place hmem
      exact ⟨outline, hmem⟩
  constructor
  · intro hdescribes
    refine ⟨⟨hkept, ?_, ?_, ?_⟩, ?_⟩
    · exact fun field hfield => (hfields field).mp (hdescribes.required field hfield)
    · rintro ⟨field, place⟩ hplace
      obtain ⟨outline, value, hmem, hvalue, rfl⟩ := h.to_found field place hplace
      exact ((hreads field outline value hmem hvalue).mp (hdescribes.present _ hmem)).1
    · exact fun field hfield => hdescribes.absent field (mt (hfields field).mp hfield)
    · intro outline hmem
      obtain ⟨value, hvalue, -⟩ := h.to_kept .children outline hmem
      exact ((hreads .children outline value hmem hvalue).mp
        (hdescribes.present _ hmem)).2 rfl
  · rintro ⟨hdescribes, hsingle⟩
    refine ⟨hfound, ?_, ?_, ?_⟩
    · exact fun field hfield => (hfields field).mpr (hdescribes.required field hfield)
    · rintro ⟨field, outline⟩ hmem
      obtain ⟨value, hvalue, hkept⟩ := h.to_kept field outline hmem
      refine (hreads field outline value hmem hvalue).mpr ⟨hdescribes.present _ hkept, ?_⟩
      rintro rfl
      exact hsingle outline hmem
    · exact fun field hfield => hdescribes.absent field (mt (hfields field).mpr hfield)

theorem regular_iff (hvalue : outline.toJson source = .ok value)
    (hskip : outline.skip = .ok ()) :
    Regular outline ↔ Regular (.ofJson value) := by
  cases Outline.denotes_of_toJson hvalue with
  | @array items values inner _ hall =>
    rw [Outline.ofJson_array]
    simp [Regular, hall.length_eq]
  | @object members values inner _ hall =>
    refine iff_of_true ⟨?_, rfl⟩ (regular_ofJson_object values)
    intro member hmember
    obtain ⟨value, -, hkey, -⟩ := Json.exists_of_forall₂_left hall hmember
    exact ⟨_, hkey, fun _ => ((Outline.skip_object_eq_ok_iff.mp hskip).1 _ hmember).2⟩
  | _ => simp [Regular, Outline.ofJson]

theorem read_iff_of_corresponds (hinner : source.enter = .ok inner)
    (hregular : Regular outline ↔ Regular (.ofJson value))
    (hcorresponds : ((entries outline).map Prod.fst).Nodup →
      Corresponds inner (entries outline) (entries (.ofJson value)))
    (hkept : ((entries (.ofJson value)).map Prod.fst).Nodup)
    (hreads : ∀ field place said, (field, place) ∈ entries outline →
      place.toJson inner = .ok said →
      (field.Reads inner place node ↔
        field.Reads .value (.ofJson said) node ∧
          (field = .children → SingleItems place))) :
    read source outline = .ok node ↔
      read .value (.ofJson value) = .ok node ∧ Single outline := by
  rw [read_eq_ok_iff, read_eq_ok_iff, single_iff, ← distinct_iff_not_repeats]
  constructor
  · rintro ⟨_, henter, hplain, hdescribes⟩
    obtain rfl := Except.ok.inj (hinner.symm.trans henter)
    have hdistinct := hdescribes.distinct
    obtain ⟨hkeeps, hsingle⟩ :=
      (describes_iff (hcorresponds hdistinct) hdistinct hkept hreads).mp hdescribes
    exact ⟨⟨.value, rfl, hregular.mp hplain, hkeeps⟩, hdistinct, hsingle⟩
  · rintro ⟨⟨_, henter, hplain, hkeeps⟩, hdistinct, hsingle⟩
    obtain rfl := Except.ok.inj henter
    exact ⟨inner, hinner, hregular.mpr hplain,
      (describes_iff (hcorresponds hdistinct) hdistinct hkept hreads).mpr
        ⟨hkeeps, hsingle⟩⟩

theorem readAlike (outline : Outline) : ReadAlike outline := by
  induction outline using induction_on_entries with
  | step outline ih =>
    intro source value node hvalue hskip
    have hreads {inner : Source} (field : Field) (place : Outline) (said : Json)
        (hentry : (field, place) ∈ entries outline)
        (hsaid : place.toJson inner = .ok said) :
        field.Reads inner place node ↔
          field.Reads .value (.ofJson said) node ∧
            (field = .children → SingleItems place) := by
      refine reads_iff hsaid ?_ (skip_of_mem_entries hentry hskip)
      rintro rfl items ending rfl
      exact ih items ending hentry
    have hregular := regular_iff hvalue hskip
    cases Outline.denotes_of_toJson hvalue with
    | @array items values inner hinner hall =>
      refine read_iff_of_corresponds hinner hregular ?_ ?_ hreads
      · rw [Outline.ofJson_array]
        exact fun _ => corresponds_zip hall
      · rw [Outline.ofJson_array]
        exact distinct_zip _
    | @object members values inner hinner hall =>
      exact read_iff_of_corresponds hinner hregular (corresponds_members hall)
        (distinct_entries_ofJson_object values) hreads
    | _ => simp [read, Outline.ofJson, Outline.mismatch_ne_ok]

theorem ofText_eq_ok_iff {text : String} :
    ofText text = .ok node ↔
      read .wholeText (Document.ofText text).outline = .ok node ∧
        (Document.ofText text).ending = .ok () :=
  Json.checked_eq_ok_iff.trans (and_congr_right fun _ => Json.unflawed_eq_ok_iff)

/-- A tree is loaded from a text just as from the value that the text stands for, unless
somewhere in the text a node repeats a member: then loading it from the text fails. -/
theorem loaders_agree {text : String} (h : Json.parse text = .ok value) :
    (∀ node, ofText text = .ok node ↔
      ofJson value = .ok node ∧ Single (Document.ofText text).outline) ∧
      (¬ Single (Document.ofText text).outline →
        ∃ error, ofText text = .error error) := by
  obtain ⟨hvalue, hending⟩ := Json.parse_eq_ok_iff.mp h
  have hskip := Outline.honest_ofText text _ _ hvalue
  have hiff (node : Node) : ofText text = .ok node ↔
      ofJson value = .ok node ∧ Single (Document.ofText text).outline := by
    rw [ofText_eq_ok_iff, readAlike _ _ _ node hvalue hskip]
    exact and_iff_left hending
  refine ⟨hiff, ?_⟩
  intro hrepeats
  cases hloaded : ofText text with
  | error error => exact ⟨error, rfl⟩
  | ok node => exact absurd ((hiff node).mp hloaded).2 hrepeats

/-- A node with its members out of order, of which one that no node knows comes twice. -/
def reordered : String :=
  "\x7b\"range\":[0,0],\"a\":0,\"type\":\"\",\"a\":1\x7d"

/-- A node with two types. -/
def twofold : String :=
  "\x7b\"type\":\"\",\"range\":[0,0],\"type\":\"\"\x7d"

/-- Both loaders read the first text; where the type comes twice, only the loader of
values reads. -/
theorem loaders_agree_twofold :
    (∃ value node, Json.parse reordered = .ok value ∧ ofJson value = .ok node ∧
      ofText reordered = .ok node) ∧
    ∃ value node error, Json.parse twofold = .ok value ∧ ofJson value = .ok node ∧
      ofText twofold = .error error := by
  have exists_of_isSome {α ε : Type} {result : Except ε α}
      (h : result.toOption.isSome = true) :
      ∃ a, result = .ok a := by
    cases result with
    | error error => cases h
    | ok a => exact ⟨a, rfl⟩
  constructor
  · have hparse : ∃ value, Json.parse reordered = .ok value :=
      exists_of_isSome (by decide +kernel)
    have hload : ∃ node, ofText reordered = .ok node :=
      exists_of_isSome (by decide +kernel)
    obtain ⟨value, hvalue⟩ := hparse
    obtain ⟨node, hnode⟩ := hload
    exact ⟨value, node, hvalue, (((loaders_agree hvalue).1 node).mp hnode).1, hnode⟩
  · have hparse : ∃ value, Json.parse twofold = .ok value :=
      exists_of_isSome (by decide +kernel)
    have hload : ((Json.parse twofold).toOption.bind fun value =>
        (ofJson value).toOption).isSome = true := by decide +kernel
    have hfail : (ofText twofold).toOption.isSome = false := by decide +kernel
    obtain ⟨value, hvalue⟩ := hparse
    rw [hvalue] at hload
    obtain ⟨node, hnode⟩ : ∃ node, ofJson value = .ok node := exists_of_isSome hload
    have hrepeats : ¬ Single (Document.ofText twofold).outline := by
      intro hsingle
      rw [((loaders_agree hvalue).1 node).mpr ⟨hnode, hsingle⟩] at hfail
      cases hfail
    obtain ⟨error, herror⟩ := (loaders_agree hvalue).2 hrepeats
    exact ⟨value, node, error, hvalue, hnode, herror⟩

end ProseMap.Node
