/-!
# Byte offsets in text

A text is measured and cut in bytes of its UTF-8 form, while its characters stay the unit
that nothing divides. The definitions work on lists of characters; `byteLength_toList`
ties the measure to the size that `String` itself reports. -/

namespace ProseMap.Text

/-- The number of bytes that characters take in UTF-8. -/
def byteLength : List Char → Nat
  | [] => 0
  | c :: cs => c.utf8Size + byteLength cs

/-- Cuts characters at a byte offset. There is no cut past the end or inside a
character. -/
def splitAt? : List Char → Nat → Option (List Char × List Char)
  | cs, 0 => some ([], cs)
  | [], _ + 1 => none
  | c :: cs, n + 1 =>
    if c.utf8Size ≤ n + 1 then
      (splitAt? cs (n + 1 - c.utf8Size)).map fun (before, after) => (c :: before, after)
    else
      none

/-- The characters from byte `start` up to byte `stop`, if both are cuts and in this
order. -/
def slice? (cs : List Char) (start stop : Nat) : Option (List Char) :=
  if start ≤ stop then do
    let (_, after) ← splitAt? cs start
    let (middle, _) ← splitAt? after (stop - start)
    return middle
  else
    none

/-- An offset at which a text can be cut: the start, the end, or between two
characters. -/
def IsBoundary (cs : List Char) (offset : Nat) : Prop :=
  ∃ before, before <+: cs ∧ byteLength before = offset

/-- The byte offset of the first occurrence of `needle`. -/
def find? (needle : List Char) : List Char → Option Nat
  | [] => if needle = [] then some 0 else none
  | c :: cs =>
    if needle.isPrefixOf (c :: cs) then some 0 else (find? needle cs).map (c.utf8Size + ·)

/-! ## Measure -/

@[simp] theorem byteLength_nil : byteLength [] = 0 := rfl

@[simp] theorem byteLength_cons (c : Char) (cs : List Char) :
    byteLength (c :: cs) = c.utf8Size + byteLength cs := rfl

@[simp] theorem byteLength_append (cs ds : List Char) :
    byteLength (cs ++ ds) = byteLength cs + byteLength ds := by
  induction cs with
  | nil => simp
  | cons c cs ih => simp [ih, Nat.add_assoc]

/-- Only the empty text takes no bytes. -/
theorem byteLength_eq_zero_iff {cs : List Char} : byteLength cs = 0 ↔ cs = [] := by
  cases cs with
  | nil => simp
  | cons c cs => simp [Nat.ne_of_gt c.utf8Size_pos]

/-- The measure is the size that a string reports. -/
theorem byteLength_toList (s : String) : byteLength s.toList = s.utf8ByteSize := by
  have of_list (cs : List Char) : (String.ofList cs).utf8ByteSize = byteLength cs := by
    induction cs with
    | nil => rfl
    | cons c cs ih =>
      rw [byteLength_cons, ← ih, show c :: cs = [c] ++ cs from rfl, String.ofList_append,
        String.utf8ByteSize_append]
      simp
  simpa using (of_list s.toList).symm

/-! ## Cuts -/

/-- Cutting loses nothing, and cuts where it was asked to. -/
theorem splitAt?_eq_some_iff {cs before after : List Char} {n : Nat} :
    splitAt? cs n = some (before, after) ↔
      before ++ after = cs ∧ byteLength before = n := by
  fun_induction splitAt? cs n generalizing before with
  | case1 cs =>
    constructor
    · intro h
      obtain ⟨rfl, rfl⟩ := by simpa using h
      simp
    · rintro ⟨rfl, h⟩
      simp [byteLength_eq_zero_iff.1 h]
  | case2 n =>
    suffices ¬ (before ++ after = [] ∧ byteLength before = n + 1) by simpa using this
    rintro ⟨h, hn⟩
    obtain ⟨rfl, rfl⟩ := by simpa using h
    simp at hn
  | case3 c cs n h ih =>
    cases before with
    | nil => simp
    | cons d ds =>
      simp only [Option.map_eq_some_iff, Prod.exists, Prod.mk.injEq, List.cons.injEq,
        List.cons_append, byteLength_cons]
      constructor
      · rintro ⟨ds', after', hs, ⟨rfl, rfl⟩, rfl⟩
        obtain ⟨rfl, hn⟩ := ih.1 hs
        exact ⟨⟨rfl, rfl⟩, by omega⟩
      · rintro ⟨⟨rfl, rfl⟩, hn⟩
        exact ⟨ds, after, ih.2 ⟨rfl, by omega⟩, ⟨rfl, rfl⟩, rfl⟩
  | case4 c cs n h =>
    cases before with
    | nil => simp
    | cons d ds =>
      simp only [reduceCtorEq, false_iff, List.cons_append, List.cons.injEq,
        byteLength_cons]
      rintro ⟨⟨rfl, -⟩, hn⟩
      omega

/-- A slice is what stands between two cuts. -/
theorem slice?_eq_some_iff {cs middle : List Char} {start stop : Nat} :
    slice? cs start stop = some middle ↔
      ∃ before after, before ++ middle ++ after = cs ∧ byteLength before = start ∧
        start + byteLength middle = stop := by
  unfold slice?
  split
  · simp only [Option.pure_def, Option.bind_eq_bind, Option.bind_eq_some_iff, Prod.exists,
      splitAt?_eq_some_iff, Option.some.injEq]
    constructor
    · rintro ⟨before, rest, ⟨rfl, rfl⟩, m, after, ⟨rfl, hm⟩, rfl⟩
      exact ⟨before, after, by simp, rfl, by omega⟩
    · rintro ⟨before, after, rfl, rfl, hm⟩
      exact ⟨before, middle ++ after, ⟨by simp, rfl⟩, middle, after, ⟨rfl, by omega⟩, rfl⟩
  · suffices ¬ ∃ before after, before ++ middle ++ after = cs ∧
        byteLength before = start ∧ start + byteLength middle = stop by simpa using this
    rintro ⟨before, after, -, -, h⟩
    omega

/-- A text can be cut exactly at its boundaries. -/
theorem isBoundary_iff {cs : List Char} {n : Nat} :
    IsBoundary cs n ↔ (splitAt? cs n).isSome := by
  constructor
  · rintro ⟨before, ⟨after, h⟩, hn⟩
    simp [splitAt?_eq_some_iff.2 ⟨h, hn⟩]
  · intro h
    obtain ⟨⟨before, after⟩, hs⟩ := Option.isSome_iff_exists.1 h
    obtain ⟨h, hn⟩ := splitAt?_eq_some_iff.1 hs
    exact ⟨before, ⟨after, h⟩, hn⟩

instance (cs : List Char) (n : Nat) : Decidable (IsBoundary cs n) :=
  decidable_of_iff _ isBoundary_iff.symm

end ProseMap.Text
