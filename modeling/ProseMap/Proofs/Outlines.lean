import ProseMap.Json.Reader
import ProseMap.Proofs.Readings

/-!
# Outlines of texts

What the outline of a text says is the value that the text stands for, and a text that can
be read to its end can be passed over as well. -/

namespace ProseMap.Json

/-! ## Tokens -/

/-- A token that one who skips gets past if a reader does. -/
def Token.Honest {α : Type} (token : Token α) : Prop :=
  ∀ a, token.reading = .ok a → token.passing = .ok ()

namespace Piece

theorem ending_of_join {ending : Except Flaw Unit} {pieces : List Piece} {cs : List Char}
    (h : join ending pieces = .ok cs) : ending = .ok () := by
  fun_induction join ending pieces generalizing cs with
  | case1 =>
    obtain ⟨_, hending, -⟩ := map_eq_ok_iff.mp h
    exact hending
  | case3 =>
    rename_i ih
    obtain ⟨_, hrest, -⟩ := map_eq_ok_iff.mp h
    exact ih hrest
  | case2 _ _ ih | case6 _ _ _ _ _ ih | case10 _ _ _ _ _ ih =>
    obtain ⟨_, hrest, -⟩ := map_eq_ok_iff.mp h
    exact ih hrest
  | case7 =>
    -- a lone surrogate at the end is a fault of its own
    cases ending <;> cases h
  | case4 | case5 | case8 | case9 => cases h

theorem honest_token (cs : List Char) : (token cs).1.Honest := by
  intro s hreading
  obtain ⟨joined, hjoin, -⟩ := map_eq_ok_iff.mp hreading
  exact ending_of_join hjoin

end Piece

namespace Numeral

/-- A token that says nothing. -/
def Mute (token : Token Number) : Prop :=
  ∀ n, token.reading ≠ .ok n

theorem mute_digitsDue (cs : List Char) : Mute (digitsDue cs) :=
  fun _ h => nomatch h

theorem mute_of_scanFraction {cs : List Char} {token : Token Number}
    (h : scanFraction cs = .error token) : Mute token := by
  unfold scanFraction at h
  split at h
  · split at h
    split at h
    · cases h
      exact mute_digitsDue _
    · cases h
  · cases h

theorem mute_of_scanExponent {cs : List Char} {token : Token Number}
    (h : scanExponent cs = .error token) : Mute token := by
  unfold scanExponent at h
  split at h
  · split at h
    · split at h
      split at h
      dsimp only at h
      split at h
      · cases h
        exact mute_digitsDue _
      · cases h
    · cases h
  · cases h

theorem mute_of_scan {cs : List Char} {token : Token Number}
    (h : scan cs = .error token) :
    Mute token := by
  unfold scan at h
  split at h
  split at h
  split at h
  · cases h
    exact mute_digitsDue _
  · cases h
    exact fun _ h => nomatch h
  · rcases bind_eq_error_iff.mp h with h | ⟨_, -, h⟩
    · exact mute_of_scanFraction h
    rcases bind_eq_error_iff.mp h with h | ⟨_, -, h⟩
    · exact mute_of_scanExponent h
    · cases h

theorem honest_token (cs : List Char) : (token cs).1.Honest := by
  intro n hreading
  unfold token at hreading ⊢
  cases h : scan cs with
  | ok scanned => rfl
  | error broken =>
    rw [h] at hreading
    exact absurd hreading (mute_of_scan h n)

end Numeral

namespace Outline

theorem toItems_eq_ok_iff {source : Source} {items : List Outline} {values : List Json} :
    toItems source items = .ok values ↔
      List.Forall₂ (fun item value => toJson source item = .ok value) items values := by
  have heq : toItems source items = items.mapM (toJson source) := by
    induction items with
    | nil => rfl
    | cons item rest ih => rw [toItems, ih, List.mapM_cons]
  rw [heq, mapM_eq_ok_iff]

theorem toMembers_eq_ok_iff {source : Source} {members : List (Token String × Outline)}
    {values : List (String × Json)} :
    toMembers source members = .ok values ↔
      List.Forall₂ (fun member value => member.1.reading = .ok value.1 ∧
        toJson source member.2 = .ok value.2) members values := by
  induction members generalizing values with
  | nil => cases values <;> simp [toMembers]
  | cons member rest ih =>
    obtain ⟨key, outline⟩ := member
    simp only [toMembers, bind_eq_ok_iff, pure_eq_ok_iff, ih, List.forall₂_cons_left_iff]
    constructor
    · rintro ⟨k, hk, v, hv, more, hmore, rfl⟩
      exact ⟨(k, v), more, ⟨hk, hv⟩, hmore, rfl⟩
    · rintro ⟨⟨k, v⟩, more, ⟨hk, hv⟩, hmore, rfl⟩
      exact ⟨k, hk, v, hv, more, hmore, rfl⟩

/-- An outline and the value that it stands for, one level deep. -/
inductive Denotes (source : Source) : Outline → Json → Prop where
  | null : Denotes source .null .null
  | bool (b : Bool) : Denotes source (.bool b) (.bool b)
  | number {token : Token Number} {n : Number} (reading : token.reading = .ok n) :
    Denotes source (.number token) (.number n)
  | string {token : Token String} {s : String} (reading : token.reading = .ok s) :
    Denotes source (.string token) (.string s)
  | array {items : List Outline} {values : List Json} {inner : Source}
      (enter : source.enter = .ok inner)
      (parts : List.Forall₂ (fun item value => toJson inner item = .ok value)
        items values) :
    Denotes source (.array items (.ok ())) (.array values)
  | object {members : List (Token String × Outline)} {values : List (String × Json)}
    {inner : Source} (enter : source.enter = .ok inner)
    (parts : List.Forall₂ (fun member value => member.1.reading = .ok value.1 ∧
      toJson inner member.2 = .ok value.2) members values) :
    Denotes source (.object members (.ok ())) (.object values)

theorem denotes_of_toJson {source : Source} {outline : Outline} {value : Json}
    (h : outline.toJson source = .ok value) : Denotes source outline value := by
  cases outline with
  | null =>
    cases h
    exact .null
  | bool b =>
    cases h
    exact .bool b
  | number token =>
    obtain ⟨n, hn, rfl⟩ := map_eq_ok_iff.mp h
    exact .number hn
  | string token =>
    obtain ⟨s, hs, rfl⟩ := map_eq_ok_iff.mp h
    exact .string hs
  | array items ending =>
    simp only [toJson, bind_eq_ok_iff, toItems_eq_ok_iff, pure_eq_ok_iff] at h
    obtain ⟨inner, hinner, values, hvalues, ⟨⟩, rfl, rfl⟩ := h
    exact .array hinner hvalues
  | object members ending =>
    simp only [toJson, bind_eq_ok_iff, toMembers_eq_ok_iff, pure_eq_ok_iff] at h
    obtain ⟨inner, hinner, values, hvalues, ⟨⟩, rfl, rfl⟩ := h
    exact .object hinner hvalues
  | flawed flaw => cases h

/-! ## Typed data in a text and in its value -/

section TypedData

variable {source : Source} {outline : Outline} {value : Json}
  (h : outline.toJson source = .ok value)

include h

theorem asString_ofJson_iff {s : String} :
    (ofJson value).asString = .ok s ↔ outline.asString = .ok s := by
  cases denotes_of_toJson h <;> simp [asString_eq_ok_iff, ofJson, Token.sound, *]

theorem asOptionalString_ofJson_iff {text : Option String} :
    (ofJson value).asOptionalString = .ok text ↔ outline.asOptionalString = .ok text := by
  cases denotes_of_toJson h <;> simp [asOptionalString_eq_ok_iff, ofJson, Token.sound, *]

theorem asWord_ofJson_iff {n : Nat} :
    (ofJson value).asWord = .ok n ↔ outline.asWord = .ok n := by
  cases denotes_of_toJson h <;> simp [asWord_eq_ok_iff, ofJson, Token.sound, *]

theorem asPair_ofJson_iff {a b : Nat} :
    (ofJson value).asPair .value = .ok (a, b) ↔ outline.asPair source = .ok (a, b) := by
  cases denotes_of_toJson h with
  | @array items values inner hinner hall =>
    rw [ofJson_array, asPair_array_iff hinner, asPair_array_iff rfl]
    match items, values, hall with
    | [], [], _ => simp
    | [_], [_], _ => simp
    | [first, second], [_, _], .cons hfirst (.cons hsecond .nil) =>
      simp [asWord_ofJson_iff hfirst, asWord_ofJson_iff hsecond]
    | _ :: _ :: _ :: _, _ :: _ :: _ :: _, _ => simp
  | _ => simp [asPair_eq_ok_iff, ofJson]

end TypedData

/-! ## Honest outlines -/

/-- An outline that can be passed over if it can be read. -/
def Honest (outline : Outline) : Prop :=
  ∀ source value, outline.toJson source = .ok value → outline.skip = .ok ()

theorem honest_flawed (flaw : Flaw) : (flawed flaw).Honest :=
  fun _ _ h => nomatch h

theorem honest_array {items : List Outline} {ending : Except Flaw Unit}
    (h : ∀ item ∈ items, item.Honest) : (array items ending).Honest := by
  intro source value hvalue
  cases denotes_of_toJson hvalue with
  | array _ hall =>
    refine skip_array_eq_ok_iff.mpr ⟨?_, rfl⟩
    intro item hitem
    obtain ⟨_, -, hread⟩ := exists_of_forall₂_left hall hitem
    exact h item hitem _ _ hread

theorem honest_object {members : List (Token String × Outline)}
    {ending : Except Flaw Unit}
    (h : ∀ member ∈ members, member.1.Honest ∧ member.2.Honest) :
    (object members ending).Honest := by
  intro source value hvalue
  cases denotes_of_toJson hvalue with
  | object _ hall =>
    refine skip_object_eq_ok_iff.mpr ⟨?_, rfl⟩
    intro member hmember
    obtain ⟨hkey, hvalue⟩ := h member hmember
    obtain ⟨_, -, hreading, hread⟩ := exists_of_forall₂_left hall hmember
    exact ⟨hkey _ hreading, hvalue _ _ hread⟩

theorem honest_word {outline : Outline} (h : outline.Honest) (expected cs : List Char) :
    (word outline expected cs).1.Honest := by
  fun_induction word outline expected cs with
  | case1 => exact h
  | case2 => exact honest_flawed _
  | case3 =>
    rename_i ih
    exact ih
  | case4 => exact honest_flawed _

theorem honest_number {token : Token Number} (h : token.Honest) :
    (number token).Honest := by
  intro source value hvalue
  cases denotes_of_toJson hvalue with
  | number hn => exact h _ hn

theorem honest_string {token : Token String} (h : token.Honest) :
    (string token).Honest := by
  intro source value hvalue
  cases denotes_of_toJson hvalue with
  | string hs => exact h _ hs

section Reading

variable {fuel : Nat}
  (hvalue : ∀ cs, (readValue fuel cs).1.Honest)
  (hitems : ∀ cs, ∀ item ∈ (readItems fuel cs).1, item.Honest)
  (hmembers : ∀ cs, ∀ member ∈ (readMembers fuel cs).1, member.1.Honest ∧ member.2.Honest)

include hitems hmembers in
theorem honest_readValue (cs : List Char) : (readValue (fuel + 1) cs).1.Honest := by
  unfold readValue
  split
  · exact honest_flawed _
  · split
    · exact honest_array (by simp)
    · exact honest_array (by simp)
    · exact honest_array (hitems _)
  · split
    · exact honest_object (by simp)
    · exact honest_object (hmembers _)
  · exact honest_string (Piece.honest_token _)
  · exact honest_word (fun _ _ _ => rfl) _ _
  · exact honest_word (fun _ _ _ => rfl) _ _
  · exact honest_word (fun _ _ _ => rfl) _ _
  · split
    · exact honest_number (Numeral.honest_token _)
    · exact honest_flawed _

include hvalue hitems in
theorem honest_readItems {cs : List Char} {item : Outline}
    (hitem : item ∈ (readItems (fuel + 1) cs).1) : item.Honest := by
  unfold readItems at hitem
  dsimp only at hitem
  split at hitem
  case h_4 rest _ =>
    -- after a comma the items go on
    rcases List.mem_cons.mp hitem with rfl | hitem
    · exact hvalue cs
    · exact hitems rest item hitem
  all_goals
    obtain rfl := List.mem_singleton.mp hitem
    exact hvalue cs

include hvalue hmembers in
theorem honest_readMembers {cs : List Char} {member : Token String × Outline}
    (hmember : member ∈ (readMembers (fuel + 1) cs).1) :
    member.1.Honest ∧ member.2.Honest := by
  unfold readMembers at hmember
  split at hmember
  case h_2 text _ =>
    split at hmember
    rename_i key after hkey
    split at hmember
    rename_i value rest hread
    have honest_key : key.Honest := by
      have := Piece.honest_token text
      rwa [hkey] at this
    have honest_value : value.Honest := by
      split at hread
      case h_2 text _ =>
        have := hvalue text
        rwa [hread] at this
      all_goals
        cases hread
        exact honest_flawed _
    split at hmember
    case h_4 rest _ =>
      rcases List.mem_cons.mp hmember with rfl | hmember
      · exact ⟨honest_key, honest_value⟩
      · exact hmembers rest member hmember
    all_goals
      obtain rfl := List.mem_singleton.mp hmember
      exact ⟨honest_key, honest_value⟩
  all_goals simp at hmember

end Reading

/-- What is read from a text is honest, down to the last token. -/
theorem honest_read (fuel : Nat) :
    (∀ cs, (readValue fuel cs).1.Honest) ∧
      (∀ cs, ∀ item ∈ (readItems fuel cs).1, item.Honest) ∧
        ∀ cs, ∀ member ∈ (readMembers fuel cs).1, member.1.Honest ∧ member.2.Honest := by
  induction fuel with
  | zero => simp [readValue, readItems, readMembers, honest_flawed]
  | succ fuel ih =>
    obtain ⟨hvalue, hitems, hmembers⟩ := ih
    exact ⟨honest_readValue hitems hmembers, fun _ _ => honest_readItems hvalue hitems,
      fun _ _ => honest_readMembers hvalue hmembers⟩

theorem honest_ofText (text : String) : (Document.ofText text).outline.Honest :=
  (honest_read (2 * text.toList.length + 2)).1 text.toList

end Outline

theorem parse_eq_ok_iff {text : String} {value : Json} :
    parse text = .ok value ↔
      (Document.ofText text).outline.toJson .wholeText = .ok value ∧
        (Document.ofText text).ending = .ok () :=
  checked_eq_ok_iff

end ProseMap.Json
