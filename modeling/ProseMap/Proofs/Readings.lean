import Mathlib.Data.List.Forall2
import ProseMap.Json.Decode
import ProseMap.Proofs.Members
import ProseMap.Span

/-!
# Readings

When the readers of typed data succeed, and with what: one equivalence for each of them.
Readers that are built from these are taken apart with `bind_eq_ok_iff`, and never opened.
-/

namespace ProseMap.Json

section Results

variable {ε α β : Type}

theorem bind_eq_ok_iff {result : Except ε α} {next : α → Except ε β} {b : β} :
    (result >>= next) = .ok b ↔ ∃ a, result = .ok a ∧ next a = .ok b := by
  cases result <;> simp [bind, Except.bind]

theorem bind_eq_error_iff {result : Except ε α} {next : α → Except ε β} {error : ε} :
    (result >>= next) = .error error ↔
      result = .error error ∨ ∃ a, result = .ok a ∧ next a = .error error := by
  cases result <;> simp [bind, Except.bind]

/-- A check has nothing to hand on. -/
theorem check_eq_ok_iff {check : Except ε Unit} {next : Unit → Except ε β} {b : β} :
    (check >>= next) = .ok b ↔ check = .ok () ∧ next () = .ok b := by
  cases check <;> simp [bind, Except.bind]

/-- A result that stands only if a check passes. -/
theorem checked_eq_ok_iff {result : Except ε α} {check : Except ε Unit} {b : α} :
    (do let a ← result; check; return a) = .ok b ↔ result = .ok b ∧ check = .ok () := by
  cases result <;> cases check <;> simp [bind, Except.bind, pure, Except.pure]

theorem map_eq_ok_iff {result : Except ε α} {f : α → β} {b : β} :
    result.map f = .ok b ↔ ∃ a, result = .ok a ∧ f a = b := by
  cases result <;> simp [Except.map]

theorem unflawed_eq_ok_iff {result : Except Flaw α} {a : α} :
    unflawed result = .ok a ↔ result = .ok a := by
  cases result <;> simp [unflawed, Except.mapError]

theorem pure_eq_ok_iff {a b : α} : (pure a : Except ε α) = .ok b ↔ a = b := by
  simp [pure, Except.pure]

theorem throw_ne_ok {error : ε} {a : α} : (throw error : Except ε α) ≠ .ok a := by
  simp [throw, throwThe, MonadExceptOf.throw]

/-- Reading a list item by item succeeds if it does for each of the items. -/
theorem mapM_eq_ok_iff {read : α → Except ε β} {items : List α} {values : List β} :
    items.mapM read = .ok values ↔
      List.Forall₂ (fun item b => read item = .ok b) items values := by
  induction items generalizing values with
  | nil => cases values <;> simp [pure_eq_ok_iff]
  | cons item rest ih =>
    simp only [List.mapM_cons, bind_eq_ok_iff, pure_eq_ok_iff, ih,
      List.forall₂_cons_left_iff]
    constructor
    · rintro ⟨b, hb, more, hmore, rfl⟩
      exact ⟨b, more, hb, hmore, rfl⟩
    · rintro ⟨b, more, hb, hmore, rfl⟩
      exact ⟨b, hb, more, hmore, rfl⟩

theorem exists_of_forall₂ {R : α → β → Prop} {items : List α} {values : List β} {b : β}
    (h : List.Forall₂ R items values) (hb : b ∈ values) : ∃ item ∈ items, R item b := by
  induction h with
  | nil => cases hb
  | cons hhead _ ih =>
    rcases List.mem_cons.mp hb with rfl | hb
    · exact ⟨_, List.mem_cons_self, hhead⟩
    · obtain ⟨item, hitem, hR⟩ := ih hb
      exact ⟨item, List.mem_cons_of_mem _ hitem, hR⟩

theorem exists_of_forall₂_left {R : α → β → Prop} {items : List α} {values : List β}
    {a : α} (h : List.Forall₂ R items values) (ha : a ∈ items) :
    ∃ value ∈ values, R a value :=
  exists_of_forall₂ (R := flip R) h.flip ha

end Results

namespace Outline

variable {outline : Outline} {source inner : Source}

theorem mismatch_ne_ok {α : Type} {expected : Expected} {a : α} :
    outline.mismatch expected ≠ .ok a := by
  intro h
  obtain ⟨_, -, hthrow⟩ := bind_eq_ok_iff.mp h
  exact throw_ne_ok hthrow

theorem asString_eq_ok_iff {s : String} :
    outline.asString = .ok s ↔
      ∃ token, outline = .string token ∧ token.reading = .ok s := by
  cases outline <;> simp [asString, unflawed_eq_ok_iff, mismatch_ne_ok]

theorem asOptionalString_eq_ok_iff {text : Option String} :
    outline.asOptionalString = .ok text ↔
      outline = .null ∧ text = none ∨
        ∃ token s, outline = .string token ∧ token.reading = .ok s ∧ text = some s := by
  cases outline with
  | null => simp [asOptionalString, eq_comm]
  | string token =>
    simp [asOptionalString, map_eq_ok_iff, asString_eq_ok_iff, eq_comm (a := text)]
  | _ => simp [asOptionalString, map_eq_ok_iff, asString_eq_ok_iff]

theorem asWord_eq_ok_iff {n : Nat} :
    outline.asWord = .ok n ↔
      n < wordLimit ∧ ∃ token, outline = .number token ∧
        token.reading = .ok (.integer n) := by
  cases outline with
  | number token =>
    simp only [asWord, bind_eq_ok_iff, unflawed_eq_ok_iff, number.injEq, exists_eq_left']
    constructor
    · rintro ⟨m | x, hreading, h⟩
      · by_cases hm : 0 ≤ m ∧ m < wordLimit
        · obtain rfl : m.toNat = n := by simpa [hm] using h
          rw [hreading, Int.toNat_of_nonneg hm.1]
          exact ⟨by omega, rfl⟩
        · simp [hm] at h
      · simp at h
    · rintro ⟨hn, hreading⟩
      have hfits : 0 ≤ (n : Int) ∧ (n : Int) < wordLimit := by omega
      exact ⟨_, hreading, by simp [hfits]⟩
  | _ => simp [asWord, mismatch_ne_ok]

theorem asPair_eq_ok_iff {a b : Nat} :
    outline.asPair source = .ok (a, b) ↔
      ∃ first second inner, outline = .array [first, second] (.ok ()) ∧
        source.enter = .ok inner ∧ first.asWord = .ok a ∧ second.asWord = .ok b := by
  cases outline with
  | array items ending =>
    simp only [asPair, bind_eq_ok_iff, unflawed_eq_ok_iff, array.injEq]
    match items with
    | [] => simp [bind_eq_ok_iff, throw_ne_ok]
    | [first] => simp [bind_eq_ok_iff, throw_ne_ok]
    | [first, second] =>
      simp only [bind_eq_ok_iff, List.isEmpty_nil, Bool.not_true, Bool.false_eq_true,
        if_false, unflawed_eq_ok_iff, pure_eq_ok_iff, Prod.mk.injEq, List.cons.injEq,
        and_true]
      constructor
      · rintro ⟨inner, hinner, _, hfirst, _, hsecond, ⟨⟩, hending, rfl, rfl⟩
        exact ⟨first, second, inner, ⟨⟨rfl, rfl⟩, hending⟩, hinner, hfirst, hsecond⟩
      · rintro ⟨_, _, inner, ⟨⟨rfl, rfl⟩, hending⟩, hinner, hfirst, hsecond⟩
        exact ⟨inner, hinner, a, hfirst, b, hsecond, (), hending, rfl, rfl⟩
    | first :: second :: third :: rest =>
      simp [bind_eq_ok_iff, throw_ne_ok]
  | _ => simp [asPair, mismatch_ne_ok]

theorem asList_eq_ok_iff {α : Type} {item : Source → Outline → Except Error α}
    {values : List α} :
    outline.asList item source = .ok values ↔
      ∃ items inner, outline = .array items (.ok ()) ∧ source.enter = .ok inner ∧
        List.Forall₂ (fun outline value => item inner outline = .ok value)
          items values := by
  cases outline with
  | array items ending =>
    simp only [asList, bind_eq_ok_iff, unflawed_eq_ok_iff, mapM_eq_ok_iff, pure_eq_ok_iff,
      array.injEq]
    constructor
    · rintro ⟨inner, hinner, _, hvalues, ⟨⟩, hending, rfl⟩
      exact ⟨items, inner, ⟨rfl, hending⟩, hinner, hvalues⟩
    · rintro ⟨_, inner, ⟨rfl, hending⟩, hinner, hvalues⟩
      exact ⟨inner, hinner, values, hvalues, (), hending, rfl⟩
  | _ => simp [asList, mismatch_ne_ok]

theorem asPair_array_iff {items : List Outline} {a b : Nat}
    (hinner : source.enter = .ok inner) :
    (array items (.ok ())).asPair source = .ok (a, b) ↔
      ∃ first second, items = [first, second] ∧ first.asWord = .ok a ∧
        second.asWord = .ok b := by
  rw [asPair_eq_ok_iff]
  constructor
  · rintro ⟨first, second, _, heq, -, hfirst, hsecond⟩
    obtain ⟨rfl, -⟩ := array.inj heq
    exact ⟨first, second, rfl, hfirst, hsecond⟩
  · rintro ⟨first, second, rfl, hfirst, hsecond⟩
    exact ⟨first, second, inner, rfl, hinner, hfirst, hsecond⟩

theorem asList_array_iff {α : Type} {item : Source → Outline → Except Error α}
    {items : List Outline} {values : List α} (hinner : source.enter = .ok inner) :
    (array items (.ok ())).asList item source = .ok values ↔
      List.Forall₂ (fun outline value => item inner outline = .ok value)
        items values := by
  rw [asList_eq_ok_iff]
  constructor
  · rintro ⟨_, _, heq, henter, hall⟩
    obtain ⟨rfl, -⟩ := array.inj heq
    obtain rfl := Except.ok.inj (hinner.symm.trans henter)
    exact hall
  · intro hall
    exact ⟨items, inner, rfl, hinner, hall⟩

/-! ## Outlines of values -/

theorem ofItems_eq_map (items : List Json) : ofItems items = items.map ofJson := by
  induction items with
  | nil => rfl
  | cons item rest ih => rw [ofItems, ih, List.map_cons]

theorem ofMembers_eq_map (members : List (String × Json)) :
    ofMembers members = members.map fun member => (member.1, ofJson member.2) := by
  induction members with
  | nil => rfl
  | cons member rest ih =>
    obtain ⟨key, value⟩ := member
    rw [ofMembers, ih, List.map_cons]

/-- The members of an object in reading order. -/
def membersOf (members : List (String × Json)) : List (Token String × Outline) :=
  (sortMembers (ofMembers members)).map fun member => (.sound member.1, member.2)

theorem ofJson_array (items : List Json) :
    ofJson (.array items) = .array (items.map ofJson) (.ok ()) := by
  rw [ofJson, ofItems_eq_map]

theorem ofJson_object (members : List (String × Json)) :
    ofJson (.object members) = .object (membersOf members) (.ok ()) := by
  rw [ofJson, membersOf]

/-- A member is in reading order if it is the last one of its key. -/
theorem mem_membersOf_iff {members : List (String × Json)} {token : Token String}
    {outline : Outline} :
    (token, outline) ∈ membersOf members ↔
      ∃ key value, lookup key members = some value ∧ token = .sound key ∧
        outline = ofJson value := by
  simp only [membersOf, List.mem_map, Prod.exists, mem_sortMembers_iff, ofMembers_eq_map,
    lookup_map, Option.map_eq_some_iff, Prod.mk.injEq]
  constructor
  · rintro ⟨key, _, ⟨value, hvalue, rfl⟩, rfl, rfl⟩
    exact ⟨key, value, hvalue, rfl, rfl⟩
  · rintro ⟨key, value, hvalue, rfl, rfl⟩
    exact ⟨key, _, ⟨value, hvalue, rfl⟩, rfl, rfl⟩

/-- Members in ascending order are read in their order. -/
theorem membersOf_of_ascending {members : List (String × Json)} (h : Ascending members) :
    membersOf members = members.map fun member => (.sound member.1, ofJson member.2) := by
  have hmapped : Ascending (members.map fun member => (member.1, ofJson member.2)) :=
    List.pairwise_map.mpr h
  rw [membersOf, ofMembers_eq_map, sortMembers_of_ascending hmapped, List.map_map]
  rfl

/-! ## Passing over -/

theorem skip_array_eq_ok_iff {items : List Outline} {ending : Except Flaw Unit} :
    (array items ending).skip = .ok () ↔
      (∀ item ∈ items, item.skip = .ok ()) ∧ ending = .ok () := by
  have of_items : skipItems items = .ok () ↔ ∀ item ∈ items, item.skip = .ok () := by
    induction items with
    | nil => simp [skipItems]
    | cons item rest ih => simp [skipItems, check_eq_ok_iff, ih]
  simp [skip, check_eq_ok_iff, of_items]

theorem skip_object_eq_ok_iff {members : List (Token String × Outline)}
    {ending : Except Flaw Unit} :
    (object members ending).skip = .ok () ↔
      (∀ member ∈ members, member.1.passing = .ok () ∧ member.2.skip = .ok ()) ∧
        ending = .ok () := by
  have of_members : skipMembers members = .ok () ↔
      ∀ member ∈ members, member.1.passing = .ok () ∧ member.2.skip = .ok () := by
    induction members with
    | nil => simp [skipMembers]
    | cons member rest ih =>
      obtain ⟨key, value⟩ := member
      simp [skipMembers, check_eq_ok_iff, ih, and_assoc]
  simp [skip, check_eq_ok_iff, of_members]

/-- A value has no flaws. -/
theorem skip_ofJson : ∀ value : Json, (ofJson value).skip = .ok ()
  | .null => rfl
  | .bool _ => rfl
  | .number _ => rfl
  | .string _ => rfl
  | .array items => by
    rw [ofJson_array, skip_array_eq_ok_iff]
    refine ⟨?_, rfl⟩
    intro item hitem
    obtain ⟨value, hvalue, rfl⟩ := List.mem_map.mp hitem
    have : sizeOf value < sizeOf items := List.sizeOf_lt_of_mem hvalue
    exact skip_ofJson value
  | .object members => by
    rw [ofJson_object, skip_object_eq_ok_iff]
    refine ⟨?_, rfl⟩
    rintro ⟨token, outline⟩ hmember
    obtain ⟨key, value, hvalue, rfl, rfl⟩ := mem_membersOf_iff.mp hmember
    have hlt : sizeOf (key, value) < sizeOf members :=
      List.sizeOf_lt_of_mem (mem_of_lookup hvalue)
    have : sizeOf value < sizeOf members := by
      rw [Prod.mk.sizeOf_spec] at hlt
      omega
    exact ⟨rfl, skip_ofJson value⟩
termination_by value => sizeOf value

end Outline

/-! ## Records -/

namespace Record

variable {α : Type} {record : Record α} {source : Source} {P : α → Prop}

/-- The next member of an object is read into its field. -/
theorem readMembers_cons {seen : List String} {old new : α} {key : String}
    {field : Field α} {outline : Outline} {rest : List (Token String × Outline)}
    (hfield : record.fields.find? (·.key = key) = some field) (hseen : key ∉ seen)
    (hnew : field.fill source outline old = .ok new) :
    record.readMembers source seen old ((.sound key, outline) :: rest) =
      record.readMembers source (key :: seen) new rest := by
  simp [readMembers, Token.sound, unflawed, Except.mapError, hfield, hseen, hnew, bind,
    Except.bind]

theorem read_of_members {members : List (Token String × Outline)} {seen : List String}
    {value : α}
    (hread : record.readMembers .value [] record.blank members = .ok (seen, value))
    (hseen : ∀ field ∈ record.fields, field.key ∈ seen) :
    record.read .value (.object members (.ok ())) = .ok value := by
  have hnone : record.fields.find? (fun field => !decide (field.key ∈ seen)) = none := by
    simpa using hseen
  simp [read, Source.enter, unflawed, Except.mapError, hread, hnone, bind, Except.bind,
    pure, Except.pure]

section Invariants

variable (hfill : ∀ field ∈ record.fields, ∀ source outline old new,
  P old → field.fill source outline old = .ok new → P new)

include hfill

theorem holds_of_readMembers {members : List (Token String × Outline)}
    {seen : List String} {old : α} {done : List String × α} (hold : P old)
    (h : record.readMembers source seen old members = .ok done) : P done.2 := by
  induction members generalizing seen old with
  | nil =>
    cases h
    exact hold
  | cons member rest ih =>
    simp only [readMembers, bind_eq_ok_iff] at h
    obtain ⟨key, -, h⟩ := h
    cases hfield : record.fields.find? (·.key = key) with
    | none =>
      simp only [hfield, bind_eq_ok_iff] at h
      obtain ⟨_, -, hrest⟩ := h
      exact ih hold hrest
    | some field =>
      by_cases hseen : key ∈ seen
      · simp [hfield, hseen, bind_eq_ok_iff, throw_ne_ok] at h
      · simp only [hfield, hseen, if_false, bind_eq_ok_iff] at h
        obtain ⟨new, hnew, hrest⟩ := h
        exact ih (hfill field (List.mem_of_find?_eq_some hfield) _ _ _ _ hold hnew) hrest

theorem holds_of_readItems {fields : List (Field α)} {items : List Outline} {count : Nat}
    {old last : α} {seen : List String}
    (hfields : ∀ field ∈ fields, field ∈ record.fields) (hold : P old)
    (h : readItems source count old fields items = .ok (seen, last)) : P last := by
  induction fields generalizing items old seen with
  | nil =>
    cases items <;> cases h
    exact hold
  | cons field fields ih =>
    obtain ⟨hfield, hfields⟩ := List.forall_mem_cons.mp hfields
    cases items with
    | nil =>
      cases h
      exact hold
    | cons item rest =>
      simp only [readItems, bind_eq_ok_iff, pure_eq_ok_iff] at h
      obtain ⟨new, hnew, ⟨_, _⟩, hrest, heq⟩ := h
      obtain ⟨rfl, rfl⟩ := Prod.mk.inj heq
      exact ih hfields (hfill field hfield _ _ _ _ hold hnew) hrest

/-- What holds of the blank record and is kept by every field holds of what is read. -/
theorem holds_of_read {outline : Outline} {value : α} (hblank : P record.blank)
    (h : record.read source outline = .ok value) : P value := by
  cases outline with
  | object members ending =>
    simp only [read, bind_eq_ok_iff, Prod.exists] at h
    obtain ⟨_, -, seen, new, hread, _, -, hdone⟩ := h
    split at hdone
    · exact absurd hdone throw_ne_ok
    · obtain rfl := pure_eq_ok_iff.mp hdone
      exact holds_of_readMembers hfill hblank hread
  | array items ending =>
    simp only [read, bind_eq_ok_iff, Prod.exists] at h
    obtain ⟨_, -, seen, new, hread, _, -, hdone⟩ := h
    split at hdone
    · obtain ⟨_, hthrow, -⟩ := bind_eq_ok_iff.mp hdone
      exact absurd hthrow throw_ne_ok
    · obtain rfl := pure_eq_ok_iff.mp hdone
      exact holds_of_readItems hfill (fun _ => id) hblank hread
  | _ => exact absurd h Outline.mismatch_ne_ok

end Invariants

end Record

end ProseMap.Json

namespace ProseMap.Span

open Json (Outline Source)

/-- A span with ends that 64 bits hold. -/
def Words (span : Span) : Prop :=
  span.start < Json.wordLimit ∧ span.stop < Json.wordLimit

theorem read_eq_ok_iff {source : Source} {outline : Outline} {span : Span} :
    read source outline = .ok span ↔
      outline.asPair source = .ok (span.start, span.stop) := by
  simp only [read, Json.bind_eq_ok_iff, Json.pure_eq_ok_iff, Prod.exists]
  constructor
  · rintro ⟨start, stop, h, rfl⟩
    exact h
  · intro h
    exact ⟨_, _, h, rfl⟩

/-- Only words are read as the ends of a span. -/
theorem words_of_read {source : Source} {outline : Outline} {span : Span}
    (h : read source outline = .ok span) : span.Words := by
  obtain ⟨_, _, _, -, -, hstart, hstop⟩ :=
    Outline.asPair_eq_ok_iff.mp (read_eq_ok_iff.mp h)
  exact ⟨(Outline.asWord_eq_ok_iff.mp hstart).1, (Outline.asWord_eq_ok_iff.mp hstop).1⟩

/-- A span of words is read as it was saved. -/
theorem read_toJson {span : Span} (h : span.Words) :
    read .value (.ofJson span.toJson) = .ok span := by
  have word_toJson {n : Nat} (hn : n < Json.wordLimit) :
      (Outline.ofJson (.ofNat n)).asWord = .ok n :=
    Outline.asWord_eq_ok_iff.mpr ⟨hn, _, rfl, rfl⟩
  rw [read_eq_ok_iff, toJson, Outline.ofJson_array]
  exact Outline.asPair_eq_ok_iff.mpr
    ⟨_, _, _, rfl, rfl, word_toJson h.1, word_toJson h.2⟩

end ProseMap.Span
