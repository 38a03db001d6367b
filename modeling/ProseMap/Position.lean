import ProseMap.Json.Decode

/-!
# Positions

A position names a place in a text by its line and its column. Lines count from one;
columns count characters from zero. Positions are ordered by line first. -/

namespace ProseMap

structure Position where
  line : Nat
  column : Nat
deriving DecidableEq, Repr

namespace Position

/-- Whether a position comes before another one. -/
def before (p q : Position) : Prop :=
  p.line < q.line ∨ p.line = q.line ∧ p.column < q.column

instance (p q : Position) : Decidable (p.before q) :=
  inferInstanceAs (Decidable (_ ∨ _))

/-- Positions in ascending order. -/
def sort (positions : List Position) : List Position :=
  positions.mergeSort fun p q => !decide (q.before p)

/-! ## JSON form -/

/-- The record that a position is read from. -/
def record : Json.Record Position where
  name := "Position"
  blank := ⟨0, 0⟩
  fields :=
    [⟨"line", fun _ outline p => do return { p with line := ← outline.asWord }⟩,
     ⟨"column", fun _ outline p => do return { p with column := ← outline.asWord }⟩]

def ofJson (value : Json) : Except Json.Error Position :=
  record.read .value (.ofJson value)

end Position

end ProseMap
