import ProseMap.Projection
import ProseMap.Proofs.Readings

/-!
# Requests

What a projection answers when a position is asked for in JSON: which values are malformed
and what is said about them, when there is no position, and that every other answer is
that of the position itself. Only what the object has under two keys matters. -/

namespace ProseMap

namespace Position

open Json (lookup bind_eq_error_iff)

variable {members : List (String × Json)} {key : String} {malformed : Malformed}
  {value : Json} {line column : Int}

/-! ## Coordinates -/

/-- An object has an integer under a key. A number with a fraction or an exponent is no
integer, whatever its value. -/
def HasInteger (members : List (String × Json)) (key : String) (n : Int) : Prop :=
  lookup key members = some (.number (.integer n))

/-- What is wrong with an object under a key: it has nothing there, or no integer. -/
inductive Faulty (members : List (String × Json)) (key : String) : Malformed → Prop
  | missing (absent : lookup key members = none) : Faulty members key (.missing key)
  | notAnInteger {value : Json} (found : lookup key members = some value)
    (no_integer : ∀ n, value ≠ .number (.integer n)) :
    Faulty members key (.notAnInteger key value)

theorem coordinate_of_integer {n : Int} (h : HasInteger members key n) :
    coordinate key members = .ok (if 0 ≤ n then some n.toNat else none) := by
  rw [coordinate, h]

theorem coordinate_of_faulty (h : Faulty members key malformed) :
    coordinate key members = .error malformed := by
  cases h with
  | missing absent => rw [coordinate, absent]
  | @notAnInteger value found no_integer =>
    rw [coordinate, found]
    cases value with
    | number n =>
      cases n with
      | integer n => exact absurd rfl (no_integer n)
      | float x => rfl
    | _ => rfl

theorem hasInteger_or_faulty (members : List (String × Json)) (key : String) :
    (∃ n, HasInteger members key n) ∨ ∃ malformed, Faulty members key malformed := by
  cases found : lookup key members with
  | none => exact .inr ⟨_, .missing found⟩
  | some value =>
    by_cases h : ∃ n, value = .number (.integer n)
    · obtain ⟨n, rfl⟩ := h
      exact .inl ⟨n, found⟩
    · exact .inr ⟨_, .notAnInteger found (not_exists.mp h)⟩

theorem coordinate_eq_error_iff :
    coordinate key members = .error malformed ↔ Faulty members key malformed := by
  constructor
  · intro h
    rcases hasInteger_or_faulty members key with ⟨n, hn⟩ | ⟨fault, hfault⟩
    · rw [coordinate_of_integer hn] at h
      cases h
    · rw [coordinate_of_faulty hfault] at h
      cases h
      exact hfault
  · exact coordinate_of_faulty

theorem exists_faulty_iff :
    (∃ malformed, Faulty members key malformed) ↔
      lookup key members = none ∨
        ∃ found ∈ lookup key members, ∀ n, found ≠ .number (.integer n) := by
  constructor
  · intro ⟨malformed, h⟩
    cases h with
    | missing absent => exact .inl absent
    | notAnInteger found no_integer => exact .inr ⟨_, found, no_integer⟩
  · intro h
    rcases h with absent | ⟨value, found, no_integer⟩
    · exact ⟨_, .missing absent⟩
    · exact ⟨_, .notAnInteger found no_integer⟩

/-! ## Positions -/

/-- What is found wrong with a request at first. The line is looked at before the
column. -/
inductive FirstFault : Json → Malformed → Prop
  | value {value : Json} (no_object : ∀ members, value ≠ .object members) :
    FirstFault value (.notAnObject value)
  | line {members : List (String × Json)} {malformed : Malformed}
    (line : Faulty members "line" malformed) : FirstFault (.object members) malformed
  | column {members : List (String × Json)} {malformed : Malformed} {n : Int}
    (line : HasInteger members "line" n) (column : Faulty members "column" malformed) :
    FirstFault (.object members) malformed

theorem ofRequest_eq_error_iff :
    ofRequest value = .error malformed ↔ FirstFault value malformed := by
  cases value with
  | object members =>
    simp only [ofRequest, bind_eq_error_iff, coordinate_eq_error_iff]
    constructor
    · intro h
      rcases h with hline | ⟨line, hline, hcolumn | ⟨column, -, h⟩⟩
      · exact .line hline
      · rcases hasInteger_or_faulty members "line" with ⟨n, hn⟩ | ⟨fault, hfault⟩
        · exact .column hn hcolumn
        · rw [coordinate_of_faulty hfault] at hline
          cases hline
      · cases h
    · intro h
      cases h with
      | value no_object => exact absurd rfl (no_object members)
      | line hline => exact .inl hline
      | column hline hcolumn => exact .inr ⟨_, coordinate_of_integer hline, .inl hcolumn⟩
  | _ =>
    constructor
    · intro h
      cases h
      exact .value nofun
    · intro h
      cases h
      rfl

/-- Something is wrong if the request is no object, or under one of the two keys. -/
theorem exists_firstFault_iff :
    (∃ malformed, FirstFault value malformed) ↔
      (∀ members, value ≠ .object members) ∨
      ∃ members, value = .object members ∧
        ∃ key ∈ ["line", "column"], ∃ malformed, Faulty members key malformed := by
  constructor
  · intro ⟨malformed, h⟩
    cases h with
    | value no_object => exact .inl no_object
    | line hline => exact .inr ⟨_, rfl, "line", by simp, _, hline⟩
    | column _ hcolumn => exact .inr ⟨_, rfl, "column", by simp, _, hcolumn⟩
  · intro h
    rcases h with no_object | ⟨members, rfl, key, hkey, malformed, hfault⟩
    · exact ⟨_, .value no_object⟩
    · rcases hasInteger_or_faulty members "line" with ⟨n, hn⟩ | ⟨first, hfirst⟩
      · -- the line being sound, the key is that of the column
        rcases List.mem_pair.mp hkey with rfl | rfl
        · rw [← coordinate_eq_error_iff, coordinate_of_integer hn] at hfault
          cases hfault
        · exact ⟨_, .column hn hfault⟩
      · exact ⟨_, .line hfirst⟩

theorem ofRequest_of_integers (hline : HasInteger members "line" line)
    (hcolumn : HasInteger members "column" column) :
    ofRequest (.object members) =
      .ok (if 0 ≤ line ∧ 0 ≤ column then some ⟨line.toNat, column.toNat⟩ else none) := by
  rw [ofRequest, coordinate_of_integer hline, coordinate_of_integer hcolumn]
  by_cases hl : 0 ≤ line <;> by_cases hc : 0 ≤ column <;>
    simp [hl, hc, bind, Except.bind, pure, Except.pure]

end Position

/-! ## Answers -/

namespace Projection

open Position (HasInteger Faulty FirstFault Malformed)

variable {projection : Projection} {value : Json} {malformed : Malformed}
  {members others : List (String × Json)} {line column : Int}

theorem positionOfRequest_eq (projection : Projection) (value : Json) :
    projection.positionOfRequest value =
      (Position.ofRequest value).map
        (·.bind (projection.positionOfPosition? · .start)) := by
  rw [positionOfRequest]
  cases Position.ofRequest value <;> rfl

theorem positionOfRequest_eq_error_iff :
    projection.positionOfRequest value = .error malformed ↔
      FirstFault value malformed := by
  rw [positionOfRequest_eq, ← Position.ofRequest_eq_error_iff]
  cases Position.ofRequest value <;> simp [Except.map]

theorem positionOfRequest_of_integers (projection : Projection)
    (hline : HasInteger members "line" line)
    (hcolumn : HasInteger members "column" column) :
    projection.positionOfRequest (.object members) = .ok
      (if 0 ≤ line ∧ 0 ≤ column then
        projection.positionOfPosition? ⟨line.toNat, column.toNat⟩ .start
      else none) := by
  rw [positionOfRequest_eq, Position.ofRequest_of_integers hline hcolumn]
  by_cases h : 0 ≤ line ∧ 0 ≤ column <;> simp [h, Except.map]

/-- How a projection answers positions that are asked for in JSON. -/
structure AnswersRequests (projection : Projection) : Prop where
  /-- A request is malformed if it is no object, or if the object does not have an integer
  under both keys. -/
  malformed_iff : ∀ value,
    (∃ malformed, projection.positionOfRequest value = .error malformed) ↔
      (∀ members, value ≠ .object members) ∨
      ∃ members, value = .object members ∧
        ∃ key ∈ ["line", "column"], Json.lookup key members = none ∨
          ∃ found ∈ Json.lookup key members, ∀ n, found ≠ .number (.integer n)
  /-- What is said about it is the first fault, and a fault in the line comes first. -/
  error_iff : ∀ value malformed,
    projection.positionOfRequest value = .error malformed ↔ FirstFault value malformed
  /-- A negative coordinate stands for no position. -/
  negative : ∀ members line column, HasInteger members "line" line →
    HasInteger members "column" column → line < 0 ∨ column < 0 →
    projection.positionOfRequest (.object members) = .ok none
  /-- Any other request is answered as the position that it names. -/
  natural : ∀ members (line column : Nat), HasInteger members "line" line →
    HasInteger members "column" column →
    projection.positionOfRequest (.object members) =
      .ok (projection.positionOfPosition? ⟨line, column⟩ .start)
  /-- What else the object has makes no difference. -/
  other_members : ∀ members others,
    (∀ key ∈ ["line", "column"], Json.lookup key members = Json.lookup key others) →
    projection.positionOfRequest (.object members) =
      projection.positionOfRequest (.object others)

theorem answersRequests (projection : Projection) : projection.AnswersRequests where
  malformed_iff := by
    intro value
    simp only [positionOfRequest_eq_error_iff, Position.exists_firstFault_iff,
      Position.exists_faulty_iff]
  error_iff := fun _ _ => positionOfRequest_eq_error_iff
  negative := by
    intro members line column hline hcolumn h
    have hno : ¬ (0 ≤ line ∧ 0 ≤ column) := by omega
    rw [positionOfRequest_of_integers projection hline hcolumn, if_neg hno]
  natural := by
    intro members line column hline hcolumn
    have hboth : 0 ≤ (line : Int) ∧ 0 ≤ (column : Int) := by omega
    rw [positionOfRequest_of_integers projection hline hcolumn, if_pos hboth]
    rfl
  other_members := by
    intro members others h
    have hline := h "line" (by simp)
    have hcolumn := h "column" (by simp)
    simp only [positionOfRequest, Position.ofRequest, Position.coordinate, hline, hcolumn]

/-- The line is blamed first, a negative line does not excuse a missing column, and the
number one is malformed when it is written with a fraction. -/
example :
    Position.ofRequest (.object [("line", .null), ("column", .null)]) =
        .error (.notAnInteger "line" .null) ∧
      Position.ofRequest (.object [("line", .number (.integer (-1)))]) =
        .error (.missing "column") ∧
      Position.ofRequest
        (.object [("line", .number (.float ⟨false, Nat.pow 2 52, -52⟩))]) =
        .error (.notAnInteger "line" (.number (.float ⟨false, Nat.pow 2 52, -52⟩))) :=
  ⟨rfl, rfl, rfl⟩

end Projection

end ProseMap
