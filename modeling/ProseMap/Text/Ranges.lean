import ProseMap.Bisect

/-!
# Sets of code points

A set of code points is written as its ranges, first and last point of each, in ascending
order. Membership is a bisection for the first range that does not end before the point.
-/

namespace ProseMap.Text

/-- Ascending ranges of code points, each with its first and its last point. -/
abbrev Ranges := Array (Nat × Nat)

/-- Whether a character lies in one of the ranges. -/
def Ranges.contains (ranges : Ranges) (c : Char) : Bool :=
  ranges[bisect (fun range => range.2 < c.toNat) ranges]?.any (·.1 ≤ c.toNat)

end ProseMap.Text
