import ProseMap.Json.Outline

/-!
# Members

An object keeps for each key the last member that has it, in ascending order of the keys.
What `sortMembers` keeps is known by its members alone (`mem_sortMembers_iff`). -/

namespace ProseMap.Json

variable {α β : Type} {key : String} {value : α} {members : List (String × α)}

/-! ## Looking up -/

theorem mem_of_lookup (h : lookup key members = some value) : (key, value) ∈ members := by
  induction members with
  | nil => cases h
  | cons head rest ih =>
    obtain ⟨k, v⟩ := head
    simp only [lookup, Option.or_eq_some_iff] at h
    rcases h with hrest | ⟨-, hhead⟩
    · exact List.mem_cons_of_mem _ (ih hrest)
    · by_cases hk : k = key
      · simp only [if_pos hk, Option.some.injEq] at hhead
        simp [hk, hhead]
      · simp [hk] at hhead

/-- A key of a member is found, if not with that member then with a later one. -/
theorem exists_lookup_of_mem (h : (key, value) ∈ members) :
    ∃ v, lookup key members = some v := by
  induction members with
  | nil => cases h
  | cons head rest ih =>
    rw [← Option.ne_none_iff_exists', lookup, ne_eq, Option.or_eq_none_iff]
    rintro ⟨hrest, hhead⟩
    rcases List.mem_cons.mp h with rfl | hmem
    · simp at hhead
    · obtain ⟨v, hv⟩ := ih hmem
      rw [hv] at hrest
      cases hrest

theorem lookup_map (f : α → β) (key : String) (members : List (String × α)) :
    lookup key (members.map fun member => (member.1, f member.2)) =
      (lookup key members).map f := by
  induction members with
  | nil => rfl
  | cons head rest ih =>
    simp only [List.map_cons, lookup, ih]
    cases lookup key rest with
    | some v => rfl
    | none => by_cases hk : head.1 = key <;> simp [hk]

theorem lookup_append (key : String) (before after : List (String × α)) :
    lookup key (before ++ after) = (lookup key after).or (lookup key before) := by
  induction before with
  | nil => simp [lookup]
  | cons head rest ih => rw [List.cons_append, lookup, ih, lookup, Option.or_assoc]

/-- A member does not count under the keys of others. -/
theorem lookup_insert_of_ne {before after : List (String × α)} {other : String}
    (h : other ≠ key) : lookup key (before ++ (other, value) :: after) =
      lookup key (before ++ after) := by
  simp [lookup_append, lookup, h]

/-- A member counts under its key unless a later one does. -/
theorem lookup_insert (key : String) (value : α) (before after : List (String × α)) :
    lookup key (before ++ (key, value) :: after) =
      some ((lookup key after).getD value) := by
  rw [lookup_append, lookup]
  cases lookup key after <;> simp

/-! ## Ascending members -/

/-- Members in ascending order of their keys, so that no key repeats. -/
def Ascending (members : List (String × α)) : Prop :=
  members.Pairwise fun a b => a.1 < b.1

theorem Ascending.of_keys (h : (members.map Prod.fst).Pairwise (· < ·)) :
    Ascending members :=
  List.pairwise_map.mp h

theorem mem_insertMember_iff {member other : String × α} (h : Ascending members) :
    other ∈ insertMember member members ↔
      other = member ∨ other ∈ members ∧ other.1 ≠ member.1 := by
  induction members with
  | nil => simp [insertMember]
  | cons head rest ih =>
    obtain ⟨hhead, hrest⟩ := List.pairwise_cons.mp h
    simp only [insertMember]
    by_cases hlt : member.1 < head.1
    · -- all keys are greater than that of the member
      have hne : other ∈ head :: rest → other.1 ≠ member.1 := by
        intro hmem heq
        rcases List.mem_cons.mp hmem with rfl | hmem
        · exact String.lt_irrefl _ (heq ▸ hlt)
        · exact String.lt_irrefl _ (heq ▸ String.lt_trans hlt (hhead _ hmem))
      rw [if_pos hlt, List.mem_cons]
      exact or_congr_right (iff_self_and.mpr hne)
    · rw [if_neg hlt]
      by_cases heq : member.1 = head.1
      · -- the member takes the place of the one with its key
        have hne : other ∈ rest → other.1 ≠ member.1 := by
          intro hmem hkey
          exact String.ne_of_lt (hhead _ hmem) (heq.symm.trans hkey.symm)
        rw [if_pos heq, List.mem_cons, List.mem_cons]
        constructor
        · rintro (rfl | hmem)
          · exact .inl rfl
          · exact .inr ⟨.inr hmem, hne hmem⟩
        · rintro (rfl | ⟨rfl | hmem, hkey⟩)
          · exact .inl rfl
          · exact absurd heq.symm hkey
          · exact .inr hmem
      · rw [if_neg heq, List.mem_cons, List.mem_cons, ih hrest]
        constructor
        · rintro (rfl | rfl | ⟨hmem, hkey⟩)
          · exact .inr ⟨.inl rfl, Ne.symm heq⟩
          · exact .inl rfl
          · exact .inr ⟨.inr hmem, hkey⟩
        · rintro (rfl | ⟨rfl | hmem, hkey⟩)
          · exact .inr (.inl rfl)
          · exact .inl rfl
          · exact .inr (.inr ⟨hmem, hkey⟩)

theorem Ascending.insertMember {member : String × α} (h : Ascending members) :
    Ascending (insertMember member members) := by
  induction members with
  | nil => simp [Json.insertMember, Ascending]
  | cons head rest ih =>
    obtain ⟨hhead, hrest⟩ := List.pairwise_cons.mp h
    simp only [Json.insertMember]
    by_cases hlt : member.1 < head.1
    · rw [if_pos hlt]
      refine List.pairwise_cons.mpr ⟨?_, h⟩
      intro other hmem
      rcases List.mem_cons.mp hmem with rfl | hmem
      · exact hlt
      · exact String.lt_trans hlt (hhead _ hmem)
    · rw [if_neg hlt]
      by_cases heq : member.1 = head.1
      · rw [if_pos heq]
        refine List.pairwise_cons.mpr ⟨?_, hrest⟩
        intro other hmem
        rw [heq]
        exact hhead _ hmem
      · rw [if_neg heq]
        refine List.pairwise_cons.mpr ⟨?_, ih hrest⟩
        intro other hmem
        rcases (mem_insertMember_iff hrest).mp hmem with rfl | ⟨hmem, -⟩
        · apply String.not_le.mp
          intro hle
          exact heq (String.le_antisymm hle (String.not_lt.mp hlt))
        · exact hhead _ hmem

/-! ## Sorting -/

theorem ascending_sortMembers (members : List (String × α)) :
    Ascending (sortMembers members) := by
  have of_foldl (sorted : List (String × α)) (h : Ascending sorted) :
      Ascending (members.foldl (fun sorted member => insertMember member sorted)
        sorted) := by
    induction members generalizing sorted with
    | nil => exact h
    | cons member rest ih => exact ih _ h.insertMember
  exact of_foldl [] .nil

/-- What sorting keeps of a key is the last member with it. -/
theorem mem_sortMembers_iff : (key, value) ∈ sortMembers members ↔
    lookup key members = some value := by
  have of_foldl (sorted : List (String × α)) (h : Ascending sorted) :
      (key, value) ∈
        members.foldl (fun sorted member => insertMember member sorted) sorted ↔
        lookup key members = some value ∨
          lookup key members = none ∧ (key, value) ∈ sorted := by
    induction members generalizing sorted with
    | nil => simp [lookup]
    | cons member rest ih =>
      obtain ⟨k, v⟩ := member
      rw [List.foldl_cons, ih _ h.insertMember, mem_insertMember_iff h, lookup]
      cases lookup key rest with
      | some found => simp
      | none =>
        by_cases hk : k = key
        · simp [hk, eq_comm]
        · simp [hk, Ne.symm hk]
  rw [sortMembers, of_foldl [] .nil]
  simp

/-- Members that are in order are left as they are. -/
theorem sortMembers_of_ascending (h : Ascending members) :
    sortMembers members = members := by
  have insert_last (sorted : List (String × α)) (member : String × α)
      (hlast : ∀ other ∈ sorted, other.1 < member.1) :
      insertMember member sorted = sorted ++ [member] := by
    induction sorted with
    | nil => rfl
    | cons head rest ih =>
      have hlt := hlast head List.mem_cons_self
      rw [insertMember, if_neg (String.lt_asymm hlt), if_neg (String.ne_of_lt hlt).symm,
        ih fun other hmem => hlast other (List.mem_cons_of_mem _ hmem)]
      rfl
  have of_foldl (sorted more : List (String × α)) (h : Ascending (sorted ++ more)) :
      more.foldl (fun sorted member => insertMember member sorted) sorted =
        sorted ++ more := by
    induction more generalizing sorted with
    | nil => exact (List.append_nil _).symm
    | cons member rest ih =>
      have hlast (other : String × α) (hmem : other ∈ sorted) : other.1 < member.1 :=
        (List.pairwise_append.mp h).2.2 other hmem member List.mem_cons_self
      have hmore : Ascending ((sorted ++ [member]) ++ rest) := by
        rw [List.append_assoc]
        exact h
      rw [List.foldl_cons, insert_last sorted member hlast, ih _ hmore,
        List.append_assoc]
      rfl
  exact of_foldl [] members h

end ProseMap.Json
