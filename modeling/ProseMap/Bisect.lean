/-!
# Bisection

A predicate that holds on a first stretch of an array and on nothing after it has a
turning point, which halving finds. `bisect_eq_of_turns` says that the answer is that
point. -/

namespace ProseMap

/-- Halves `[lo, hi)` at most `fuel` times, keeping the turning point of `p` between its
ends. -/
def bisectBetween {α : Type} (p : α → Bool) (xs : Array α) : Nat → Nat → Nat → Nat
  | 0, lo, _ => lo
  | fuel + 1, lo, hi =>
    if lo < hi then
      let mid := lo + (hi - lo) / 2
      if xs[mid]?.any p then
        bisectBetween p xs fuel (mid + 1) hi
      else
        bisectBetween p xs fuel lo mid
    else
      lo

/-- The first index at which `p` fails, when `p` holds before it and fails from it on. An
interval of `n` elements is empty after `n` halvings, so the fuel never runs out. -/
def bisect {α : Type} (p : α → Bool) (xs : Array α) : Nat :=
  bisectBetween p xs xs.size 0 xs.size

/-! ## The turning point -/

theorem bisectBetween_eq_of_turns {α : Type} {p : α → Bool} {xs : Array α} {k : Nat}
    (holds : ∀ i < k, xs[i]?.any p) (fails : ∀ i, k ≤ i → ¬ xs[i]?.any p)
    {fuel lo hi : Nat} (hfuel : hi - lo ≤ fuel) (hlo : lo ≤ k) (hhi : k ≤ hi) :
    bisectBetween p xs fuel lo hi = k := by
  induction fuel generalizing lo hi with
  | zero => simp only [bisectBetween]; omega
  | succ fuel ih =>
    simp only [bisectBetween]
    split
    · split
      · have : lo + (hi - lo) / 2 < k := by
          apply Nat.lt_of_not_le
          intro h
          exact fails _ h ‹_›
        exact ih (by omega) (by omega) hhi
      · have : k ≤ lo + (hi - lo) / 2 := by
          apply Nat.le_of_not_lt
          intro h
          exact absurd (holds _ h) ‹_›
        exact ih (by omega) hlo this
    · omega

/-- Bisection finds the index before which `p` holds and from which on it fails. -/
theorem bisect_eq_of_turns {α : Type} {p : α → Bool} {xs : Array α} {k : Nat}
    (hk : k ≤ xs.size) (holds : ∀ i < k, xs[i]?.any p)
    (fails : ∀ i, k ≤ i → ¬ xs[i]?.any p) :
    bisect p xs = k :=
  bisectBetween_eq_of_turns holds fails (by omega) (by omega) hk

end ProseMap
