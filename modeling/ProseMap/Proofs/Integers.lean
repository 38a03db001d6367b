import ProseMap.Proofs.Outlines
import ProseMap.Proofs.Queries
import ProseMap.Proofs.Requests

/-!
# Requests with integers

Requests that are written down as two integers. A text can name integers of any size, but
the value that is read from it holds those of 64 bits only: all others turn into floating
point numbers on the way. So a request is answered as one for its two integers exactly if
both of them are held (`answersIntegers_iff`). -/

namespace ProseMap

namespace Json

/-! ## Digits -/

namespace Numeral

/-- The decimal digits of a natural number. -/
def digitsOf (n : Nat) : List Nat :=
  (Nat.toDigits 10 n).map fun c => c.toNat - '0'.toNat

/-- The number that digits stand for behind a number that has been read. -/
def valueOf (n : Nat) (digits : List Nat) : Nat :=
  digits.foldl (fun n d => 10 * n + d) n

theorem valueOf_digitsOf (n : Nat) : valueOf 0 (digitsOf n) = n := by
  rw [valueOf, digitsOf, List.foldl_map, ← Nat.ofDigitChars_eq_foldl,
    Nat.ofDigitChars_ten_toDigits]

theorem le_valueOf (n : Nat) (digits : List Nat) : n ≤ valueOf n digits := by
  induction digits generalizing n with
  | nil => exact Nat.le_refl n
  | cons d digits ih =>
    have h := ih (10 * n + d)
    rw [valueOf, List.foldl_cons, ← valueOf]
    omega

/-- All digits are absorbed if their number fits. -/
theorem absorb_of_lt {n : Nat} {digits : List Nat} (h : valueOf n digits < wordLimit) :
    absorb n digits = (valueOf n digits, []) := by
  induction digits generalizing n with
  | nil => rfl
  | cons d digits ih =>
    have hle := le_valueOf (10 * n + d) digits
    rw [valueOf, List.foldl_cons, ← valueOf] at h ⊢
    rw [absorb, if_pos (by omega), ih h]

/-- Otherwise there are digits left. -/
theorem absorb_of_le {n : Nat} {digits : List Nat} (hn : n < wordLimit)
    (h : wordLimit ≤ valueOf n digits) : (absorb n digits).2 ≠ [] := by
  induction digits generalizing n with
  | nil => exact absurd hn (Nat.not_lt.mpr h)
  | cons d digits ih =>
    rw [valueOf, List.foldl_cons, ← valueOf] at h
    rw [absorb]
    split
    · rename_i hd
      exact ih hd h
    · exact List.cons_ne_nil _ _

theorem digitsOf_ne_nil (n : Nat) : digitsOf n ≠ [] := by
  simp [digitsOf, Nat.toDigits_ne_nil]

/-- Only zero starts with a zero. -/
theorem head_toDigits_ne {n : Nat} (h : n ≠ 0) :
    (Nat.toDigits 10 n).head? ≠ some '0' := by
  induction n using Nat.strongRecOn with
  | ind n ih =>
    by_cases hlt : n < 10
    · rw [Nat.toDigits_of_lt_base hlt]
      simpa using h
    · rw [Nat.toDigits_of_base_le (by decide) (Nat.not_lt.mp hlt),
        List.head?_append_of_ne_nil]
      · exact ih (n / 10) (by omega) (by omega)
      · exact Nat.toDigits_ne_nil

theorem isDigit_of_mem_toDigits {n : Nat} {c : Char} (h : c ∈ Nat.toDigits 10 n) :
    c.isDigit :=
  Nat.isDigit_of_mem_toDigits (by decide) (by decide) h

theorem exists_toDigits_eq (n : Nat) :
    ∃ c cs, c.isDigit ∧ Nat.toDigits 10 n = c :: cs := by
  obtain ⟨c, cs, hcs⟩ :=
    List.exists_cons_of_ne_nil (Nat.toDigits_ne_nil (n := n) (b := 10))
  exact ⟨c, cs, isDigit_of_mem_toDigits (hcs ▸ List.mem_cons_self), hcs⟩

/-- So digits do not start with a zero that more digits follow. -/
theorem digitsOf_ne_zero_cons (n d : Nat) (digits : List Nat) :
    digitsOf n ≠ 0 :: d :: digits := by
  intro h
  obtain ⟨c, cs, hcs, hc, hmore⟩ := List.map_eq_cons_iff.mp h
  by_cases hn : n = 0
  · subst hn
    cases hcs
    cases hmore
  · refine head_toDigits_ne hn ?_
    have hdigit : c.isDigit := isDigit_of_mem_toDigits (hcs ▸ List.mem_cons_self)
    have hle : '0'.toNat ≤ c.toNat := by
      simp only [Char.isDigit, Bool.and_eq_true, decide_eq_true_eq] at hdigit
      exact hdigit.1
    have hzero : c = '0' := Char.toNat_inj.mp (by omega)
    rw [hcs, hzero, List.head?_cons]

/-! ## Scanning -/

/-- Whether a number ends where a text begins. -/
def EndsBefore (rest : List Char) : Prop :=
  ∀ c ∈ rest.head?, ¬ c.isDigit ∧ c ≠ '.' ∧ c ≠ 'e' ∧ c ≠ 'E'

variable {rest : List Char}

theorem scanDigits_toDigits (n : Nat) (h : EndsBefore rest) :
    scanDigits (Nat.toDigits 10 n ++ rest) = (digitsOf n, rest) := by
  have hdigits : ∀ c ∈ Nat.toDigits 10 n, c.isDigit := fun c => isDigit_of_mem_toDigits
  have hstop : rest.takeWhile Char.isDigit = [] ∧ rest.dropWhile Char.isDigit = rest := by
    cases rest with
    | nil => exact ⟨rfl, rfl⟩
    | cons c rest =>
      have hc := (h c rfl).1
      simp [hc]
  rw [scanDigits, List.takeWhile_append_of_pos hdigits,
    List.dropWhile_append_of_pos hdigits, hstop.1, hstop.2, List.append_nil, digitsOf]

theorem scanFraction_of_endsBefore (h : EndsBefore rest) :
    scanFraction rest = .ok ([], rest) := by
  rw [scanFraction.eq_def]
  split
  · exact absurd rfl (h '.' rfl).2.1
  · rfl

theorem scanExponent_of_endsBefore (h : EndsBefore rest) :
    scanExponent rest = .ok (none, rest) := by
  cases rest with
  | nil => rfl
  | cons c rest =>
    obtain ⟨-, -, hsmall, hlarge⟩ := h c rfl
    simp [scanExponent.eq_def, hsmall, hlarge]

/-- Digits, with or without a minus sign, are scanned as a number without fraction and
exponent. -/
theorem scan_toDigits (negative : Bool) (n : Nat) (h : EndsBefore rest) :
    scan ((if negative then ['-'] else []) ++ (Nat.toDigits 10 n ++ rest)) =
      .ok (⟨negative, digitsOf n, [], none⟩, rest) := by
  rw [scan.eq_def]
  split
  rename_i sign unsigned hsign
  obtain ⟨rfl, rfl⟩ : sign = negative ∧ unsigned = Nat.toDigits 10 n ++ rest := by
    cases negative with
    | true =>
      cases hsign
      exact ⟨rfl, rfl⟩
    | false =>
      -- the first character is a digit, so it is not taken for a sign
      obtain ⟨c, cs, hdigit, hcs⟩ := exists_toDigits_eq n
      rw [hcs] at hsign ⊢
      dsimp only [Bool.false_eq_true, if_false, List.nil_append, List.cons_append]
        at hsign
      split at hsign
      · rename_i heq
        cases heq
        exact absurd hdigit (by decide)
      · cases hsign
        exact ⟨rfl, rfl⟩
  simp only [scanDigits_toDigits n h]
  split
  case h_1 hnil => exact absurd hnil (digitsOf_ne_nil n)
  case h_2 hzero => exact absurd hzero (digitsOf_ne_zero_cons n _ _)
  case h_3 =>
    simp only [scanFraction_of_endsBefore h, scanExponent_of_endsBefore h, bind,
      Except.bind]
    rfl

end Numeral

/-- An integer as it can be written: a number in decimal digits, with or without a minus
sign. -/
structure IntegerLiteral where
  negative : Bool
  magnitude : Nat
deriving DecidableEq, Repr

namespace IntegerLiteral

variable {literal : IntegerLiteral} {rest : List Char}

def text (literal : IntegerLiteral) : String :=
  (if literal.negative then "-" else "") ++ toString literal.magnitude

def value (literal : IntegerLiteral) : Int :=
  if literal.negative then -literal.magnitude else literal.magnitude

/-- Whether an integer is still one when it has been read. It must fit 64 bits, signed or
unsigned, and a zero must have no minus sign. -/
def Held (literal : IntegerLiteral) : Prop :=
  -(Nat.pow 2 63 : Nat) ≤ literal.value ∧ literal.value < wordLimit ∧
    ¬ (literal.negative ∧ literal.magnitude = 0)

instance (literal : IntegerLiteral) : Decidable literal.Held :=
  inferInstanceAs (Decidable (_ ∧ _ ∧ _))

/-- What is scanned where the integer is written. -/
def numeral (literal : IntegerLiteral) : Numeral :=
  ⟨literal.negative, Numeral.digitsOf literal.magnitude, [], none⟩

theorem toList_text (literal : IntegerLiteral) :
    literal.text.toList =
      (if literal.negative then ['-'] else []) ++ Nat.toDigits 10 literal.magnitude := by
  have hdigits :
      (toString literal.magnitude).toList = Nat.toDigits 10 literal.magnitude := by
    simp [toString, Nat.repr]
  rw [text, String.toList_append, hdigits]
  cases literal.negative <;> rfl

theorem exists_toList_text_eq (literal : IntegerLiteral) :
    ∃ c cs, (c = '-' ∨ c.isDigit) ∧ literal.text.toList = c :: cs := by
  rw [toList_text]
  cases literal.negative with
  | true => exact ⟨_, _, .inl rfl, rfl⟩
  | false =>
    obtain ⟨c, cs, hdigit, hcs⟩ := Numeral.exists_toDigits_eq literal.magnitude
    exact ⟨c, cs, .inr hdigit, hcs⟩

theorem scan_text (literal : IntegerLiteral) (h : Numeral.EndsBefore rest) :
    Numeral.scan (literal.text.toList ++ rest) = .ok (literal.numeral, rest) := by
  rw [toList_text, List.append_assoc]
  exact Numeral.scan_toDigits literal.negative literal.magnitude h

theorem held_iff : literal.Held ↔ literal.magnitude < wordLimit ∧
    (literal.negative → literal.magnitude ≠ 0 ∧ literal.magnitude ≤ Nat.pow 2 63) := by
  obtain ⟨negative, magnitude⟩ := literal
  have hhalf : Nat.pow 2 63 < wordLimit := by decide
  cases negative with
  | false =>
    simp only [Held, value, Bool.false_eq_true, if_false, false_and, false_implies,
      not_false_eq_true, and_true]
    omega
  | true =>
    simp only [Held, value, if_true, true_and, true_implies]
    omega

theorem value?_of_lt (h : literal.magnitude < wordLimit) :
    literal.numeral.value? =
      if !literal.negative then some (.integer literal.magnitude)
      else if literal.magnitude = 0 ∨ Nat.pow 2 63 < literal.magnitude then
        (Binary64.nearest true literal.magnitude 1).map .float
      else some (.integer (-literal.magnitude)) := by
  rw [← Numeral.valueOf_digitsOf literal.magnitude] at h
  simp only [Numeral.value?, numeral, Numeral.absorb_of_lt h, Numeral.valueOf_digitsOf,
    and_self, if_true]

theorem value?_of_held (h : literal.Held) :
    literal.numeral.value? = some (.integer literal.value) := by
  obtain ⟨hlt, hnegative⟩ := held_iff.mp h
  rw [value?_of_lt hlt, value]
  cases hsign : literal.negative with
  | false => rfl
  | true =>
    obtain ⟨hzero, hle⟩ := hnegative hsign
    rw [if_neg (by simp), if_neg (by omega), if_pos rfl]

/-- Any other integer turns into a floating point number, if it is not too large for
one. -/
theorem value?_ne_integer (h : ¬ literal.Held) (n : Int) :
    literal.numeral.value? ≠ some (.integer n) := by
  have hfloat (x : Option Binary64) : x.map Number.float ≠ some (.integer n) := by
    cases x <;> simp
  by_cases hlt : literal.magnitude < wordLimit
  · have hnegative : literal.negative ∧
        (literal.magnitude = 0 ∨ Nat.pow 2 63 < literal.magnitude) := by
      obtain ⟨hsign, hrange⟩ :=
        Classical.not_imp.mp fun hrange => h (held_iff.mpr ⟨hlt, hrange⟩)
      exact ⟨hsign, by omega⟩
    rw [value?_of_lt hlt, if_neg (by simp [hnegative.1]), if_pos hnegative.2]
    exact hfloat _
  · have hle : wordLimit ≤ Numeral.valueOf 0 (Numeral.digitsOf literal.magnitude) := by
      rw [Numeral.valueOf_digitsOf]
      exact Nat.not_lt.mp hlt
    simp only [Numeral.value?, numeral, Numeral.absorb_of_le (by decide) hle, false_and,
      if_false]
    exact hfloat _

end IntegerLiteral

namespace Outline

/-- What starts as a number is read as one. -/
theorem readValue_of_number {c : Char} (h : c = '-' ∨ c.isDigit) (fuel : Nat)
    (cs : List Char) :
    readValue (fuel + 1) (c :: cs) =
      (.number (Numeral.token (c :: cs)).1, (Numeral.token (c :: cs)).2) := by
  have hblank : dropBlanks (c :: cs) = c :: cs := by
    refine List.dropWhile_cons_of_neg ?_
    intro hblank
    simp only [Bool.or_eq_true, decide_eq_true_eq] at hblank
    rcases hblank with ((rfl | rfl) | rfl) | rfl <;> exact absurd h (by decide)
  rw [readValue, hblank]
  split
  case h_8 c' rest _ _ _ _ _ _ heq =>
    obtain ⟨rfl, rfl⟩ := List.cons.inj heq
    rw [if_pos (by simpa using h)]
  -- no other value starts with a sign or a digit
  all_goals
    rename_i heq
    cases heq
  all_goals
    exact absurd h (by decide)

theorem readValue_text (literal : IntegerLiteral) (fuel : Nat) {rest : List Char}
    (h : Numeral.EndsBefore rest) :
    readValue (fuel + 1) (literal.text.toList ++ rest) =
      (.number (.skippable literal.numeral.value?), some rest) := by
  have htoken : Numeral.token (literal.text.toList ++ rest) =
      (.skippable literal.numeral.value?, some rest) := by
    rw [Numeral.token, literal.scan_text h]
  obtain ⟨c, cs, hc, hcs⟩ := literal.exists_toList_text_eq
  rw [hcs, List.cons_append] at htoken ⊢
  rw [readValue_of_number hc, htoken]

variable {fuel : Nat} {key : String} {value : Outline} {cs rest more : List Char}

/-- A member that ends its object. -/
theorem readMembers_of_last (hkey : Piece.token cs = (.sound key, some (':' :: rest)))
    (hvalue : readValue fuel rest = (value, some ('\x7d' :: more))) :
    readMembers (fuel + 1) ('"' :: cs) = ([(.sound key, value)], .ok (), some more) := by
  have hcolon : dropBlanks (':' :: rest) = ':' :: rest := rfl
  have hbrace : dropBlanks ('\x7d' :: more) = '\x7d' :: more := rfl
  have hquote : dropBlanks ('"' :: cs) = '"' :: cs := rfl
  simp only [readMembers, hquote, hkey, Option.map_some, hcolon, hvalue, hbrace]

/-- A member that others follow. -/
theorem readMembers_of_more {members : List (Token String × Outline)}
    {ending : Except Flaw Unit} {after : Option (List Char)}
    (hkey : Piece.token cs = (.sound key, some (':' :: rest)))
    (hvalue : readValue fuel rest = (value, some (',' :: more)))
    (hmembers : readMembers fuel more = (members, ending, after)) :
    readMembers (fuel + 1) ('"' :: cs) =
      ((.sound key, value) :: members, ending, after) := by
  have hcolon : dropBlanks (':' :: rest) = ':' :: rest := rfl
  have hcomma : dropBlanks (',' :: more) = ',' :: more := rfl
  have hquote : dropBlanks ('"' :: cs) = '"' :: cs := rfl
  simp only [readMembers, hquote, hkey, Option.map_some, hcolon, hvalue, hcomma, hmembers]

theorem readValue_of_members {members : List (Token String × Outline)}
    {ending : Except Flaw Unit} {after : Option (List Char)}
    (h : readMembers fuel ('"' :: cs) = (members, ending, after)) :
    readValue (fuel + 1) ('\x7b' :: '"' :: cs) = (.object members ending, after) := by
  have hvalue : readValue (fuel + 1) ('\x7b' :: '"' :: cs) =
      (.object (readMembers fuel ('"' :: cs)).1 (readMembers fuel ('"' :: cs)).2.1,
        (readMembers fuel ('"' :: cs)).2.2) := rfl
  rw [hvalue, h]

end Outline

/-! ## Objects of two integers -/

/-- The text of an object with an integer as line and one as column. -/
def requestText (line column : IntegerLiteral) : String :=
  "\x7b\"line\":" ++ line.text ++ ",\"column\":" ++ column.text ++ "\x7d"

variable {line column : IntegerLiteral} {value : Json}

theorem ofText_requestText (line column : IntegerLiteral) :
    Document.ofText (requestText line column) =
      ⟨.object
        [(.sound "line", .number (.skippable line.numeral.value?)),
         (.sound "column", .number (.skippable column.numeral.value?))]
        (.ok ()), .ok ()⟩ := by
  have hlineKey (rest : List Char) :
      Piece.token ("line".toList ++ '"' :: rest) = (.sound "line", some rest) := rfl
  have hcolumnKey (rest : List Char) :
      Piece.token ("column".toList ++ '"' :: rest) = (.sound "column", some rest) := rfl
  have htext : (requestText line column).toList =
      '\x7b' :: '"' :: ("line".toList ++ '"' :: ':' :: (line.text.toList ++ ',' :: '"' ::
        ("column".toList ++ '"' :: ':' :: (column.text.toList ++ ['\x7d'])))) := by
    simp [requestText]
  -- the column is read four calls deep
  obtain ⟨fuel, hfuel⟩ :
      ∃ fuel, 2 * (requestText line column).toList.length + 2 = fuel + 4 := by
    refine ⟨2 * (requestText line column).toList.length - 2, ?_⟩
    rw [htext, List.length_cons]
    omega
  have hcomma (rest : List Char) : Numeral.EndsBefore (',' :: rest) := by
    simp [Numeral.EndsBefore]
  have hbrace : Numeral.EndsBefore ['\x7d'] := by simp [Numeral.EndsBefore]
  have hcolumn := Outline.readMembers_of_last (hcolumnKey _)
    (Outline.readValue_text column fuel hbrace)
  have hmembers := Outline.readMembers_of_more (hlineKey _)
    (Outline.readValue_text line (fuel + 1) (hcomma _)) hcolumn
  rw [Document.ofText, hfuel, htext, Outline.readValue_of_members hmembers]
  rfl

/-- Such a text stands for an object of the numbers that are read, if both can be read. -/
theorem parse_requestText_iff :
    parse (requestText line column) = .ok value ↔
      ∃ x ∈ line.numeral.value?, ∃ y ∈ column.numeral.value?,
        value = .object [("line", .number x), ("column", .number y)] := by
  rw [parse_eq_ok_iff, ofText_requestText]
  cases line.numeral.value? <;> cases column.numeral.value? <;>
    simp [Outline.toJson, Outline.toMembers, Source.enter, Source.wholeText,
      Token.skippable, Token.sound, Except.map, bind, Except.bind, pure, Except.pure,
      eq_comm]

end Json

/-- Whether two integers are beyond a text: one of them is negative, or greater than the
number of lines or than the length of every line. -/
def Position.Beyond (line column : Int) (cs : List Char) : Prop :=
  line < 0 ∨ column < 0 ∨ (Text.lines cs).length < line ∨
    ∀ row ∈ Text.lines cs, (row.length : Int) < column

theorem Position.not_liesIn_of_beyond {line column : Int} {cs : List Char}
    (h : Beyond line column cs) (hline : 0 ≤ line) (hcolumn : 0 ≤ column) :
    ¬ LiesIn ⟨line.toNat, column.toNat⟩ cs := by
  intro ⟨_, row, hrow, hlength⟩
  obtain ⟨hlt, -⟩ := List.getElem?_eq_some_iff.mp hrow
  dsimp only at hlt hlength
  rcases h with h | h | h | h
  · omega
  · omega
  · omega
  · have hrow := h row (List.mem_of_getElem? hrow)
    omega

namespace Projection

open Json (IntegerLiteral parse requestText)
open Position (Beyond)

variable {projection : Projection} {line column : IntegerLiteral} {value : Json}

/-- A value is answered as a request for the position of two integers, of which there is
none beyond the text. -/
structure AnswersIntegers (projection : Projection) (line column : Int) (value : Json) :
    Prop where
  not_malformed : ∀ malformed, projection.positionOfRequest value ≠ .error malformed
  beyond : Beyond line column projection.generated.text.toList →
    projection.positionOfRequest value = .ok none
  otherwise : ¬ Beyond line column projection.generated.text.toList →
    projection.positionOfRequest value =
      .ok (projection.positionOfPosition? ⟨line.toNat, column.toNat⟩ .start)

theorem answersIntegers_of_hasInteger {members : List (String × Json)} {line column : Int}
    (hline : Position.HasInteger members "line" line)
    (hcolumn : Position.HasInteger members "column" column) :
    projection.AnswersIntegers line column (.object members) where
  not_malformed := by
    intro malformed
    rw [positionOfRequest_of_integers projection hline hcolumn]
    exact nofun
  beyond := by
    intro h
    rw [positionOfRequest_of_integers projection hline hcolumn]
    split
    · rename_i hboth
      have hnot := Position.not_liesIn_of_beyond h hboth.1 hboth.2
      rw [positionOfPosition?_eq_bind, offsetOfPosition?_of_not_liesIn hnot,
        Option.bind_none]
    · rfl
  otherwise := by
    intro h
    have hboth : 0 ≤ line ∧ 0 ≤ column := by
      constructor
      · exact Int.not_lt.mp fun hline => h (.inl hline)
      · exact Int.not_lt.mp fun hcolumn => h (.inr (.inl hcolumn))
    rw [positionOfRequest_of_integers projection hline hcolumn, if_pos hboth]

/-- What such an answer is given for is held under both keys. -/
theorem held_of_answersIntegers {members : List (String × Json)} {line column : Int}
    (key : String) {literal : IntegerLiteral} {n : Json.Number}
    (h : projection.AnswersIntegers line column (.object members))
    (hkey : key ∈ ["line", "column"]) (hn : literal.numeral.value? = some n)
    (hfound : Json.lookup key members = some (.number n)) :
    literal.Held := by
  by_contra hheld
  have hfaulty : Position.Faulty members key (.notAnInteger key (.number n)) := by
    refine .notAnInteger hfound ?_
    intro i hi
    cases hi
    exact literal.value?_ne_integer hheld i hn
  obtain ⟨malformed, hfault⟩ :=
    Position.exists_firstFault_iff.mpr (.inr ⟨members, rfl, key, hkey, _, hfaulty⟩)
  exact h.not_malformed malformed (positionOfRequest_eq_error_iff.mpr hfault)

/-- The text of two integers is answered as a request for them exactly if both are
held. -/
theorem answersIntegers_iff (projection : Projection) (line column : IntegerLiteral) :
    (line.Held → column.Held → ∃ value, parse (requestText line column) = .ok value) ∧
      ∀ value, parse (requestText line column) = .ok value →
        (projection.AnswersIntegers line.value column.value value ↔
          line.Held ∧ column.Held) := by
  refine ⟨?_, ?_⟩
  · intro hline hcolumn
    exact ⟨_, Json.parse_requestText_iff.mpr
      ⟨_, line.value?_of_held hline, _, column.value?_of_held hcolumn, rfl⟩⟩
  · intro value hvalue
    obtain ⟨x, hx, y, hy, rfl⟩ := Json.parse_requestText_iff.mp hvalue
    constructor
    · intro h
      exact ⟨held_of_answersIntegers "line" h (by simp) hx rfl,
        held_of_answersIntegers "column" h (by simp) hy rfl⟩
    · intro ⟨hline, hcolumn⟩
      obtain rfl := Option.some.inj (hx.symm.trans (line.value?_of_held hline))
      obtain rfl := Option.some.inj (hy.symm.trans (column.value?_of_held hcolumn))
      exact answersIntegers_of_hasInteger rfl rfl

/-- A paragraph of one letter. -/
def letter : Node :=
  { Node.spanning .paragraph "a" ⟨0, 1⟩ with
    children := [{ Node.spanning .str "a" ⟨0, 1⟩ with value := some "a" }] }

/-- The position of the letter. -/
theorem answersIntegers_letter :
    ∃ value, parse "\x7b\"line\":1,\"column\":0\x7d" = .ok value ∧
      (ofRoot letter).AnswersIntegers 1 0 value ∧
      (ofRoot letter).positionOfPosition? ⟨1, 0⟩ .start = some ⟨1, 0⟩ := by
  have hheld :
      IntegerLiteral.Held ⟨false, 1⟩ ∧ IntegerLiteral.Held ⟨false, 0⟩ := by decide
  have h := answersIntegers_iff (ofRoot letter) ⟨false, 1⟩ ⟨false, 0⟩
  obtain ⟨value, hvalue⟩ := h.1 hheld.1 hheld.2
  exact ⟨value, hvalue, (h.2 value hvalue).mpr hheld, by decide⟩

/-- The first integer that no 64 bits hold is malformed, although no text has so many
lines. -/
theorem not_answersIntegers_wide :
    ∃ value, parse "\x7b\"line\":18446744073709551616,\"column\":0\x7d" = .ok value ∧
      Beyond 18446744073709551616 0 (ofRoot letter).generated.text.toList ∧
      ¬ (ofRoot letter).AnswersIntegers 18446744073709551616 0 value := by
  have hwide : (IntegerLiteral.mk false 18446744073709551616).numeral.value? =
      some (.float ⟨false, Nat.pow 2 52, 12⟩) := by decide
  have hzero : IntegerLiteral.Held ⟨false, 0⟩ := by decide
  have hvalue := Json.parse_requestText_iff.mpr
    ⟨_, hwide, _, IntegerLiteral.value?_of_held hzero, rfl⟩
  refine ⟨_, hvalue, ?_, ?_⟩
  · exact .inr (.inr (.inl (by decide)))
  · intro h
    exact absurd (held_of_answersIntegers "line" h (by simp) hwide rfl) (by decide)

end Projection

end ProseMap
