import ProseMap.Binary64.Basic

/-!
# The shortest decimal of a number

All reals between the midpoints to a number's neighbours round to that number, the
midpoints themselves when its mantissa is even. The shortest decimal is the point of the
coarsest decimal grid that lies there; of two, the one nearer to the number; of two as
near, the even one. -/

namespace ProseMap

/-- The number `digits * 10 ^ exponent`. -/
structure Decimal where
  digits : Nat
  exponent : Int
deriving DecidableEq, Repr

namespace Binary64

/-- A number with the ends of the interval that rounds to it, all three as multiples of a
quarter of its last place. The number below a power of two is only half as far away as the
one above. -/
def quarters (x : Binary64) : Nat × Nat × Nat :=
  let below := if x.mantissa = leastFull ∧ leastExponent < x.exponent then 1 else 2
  (4 * x.mantissa - below, 4 * x.mantissa, 4 * x.mantissa + 2)

/-- The point of the grid of multiples of `10 ^ place` that reads back as `x`. -/
def gridPoint? (x : Binary64) (place : Int) : Option Nat :=
  let (low, mid, high) := x.quarters
  -- `unit` and `step` measure a quarter of the last place and the grid on one scale
  let unit := Nat.pow 2 (x.exponent - 2).toNat * Nat.pow 10 (-place).toNat
  let step := Nat.pow 2 (2 - x.exponent).toNat * Nat.pow 10 place.toNat
  let (low, mid, high) := (low * unit, mid * unit, high * unit)
  let readsBack (digits : Nat) : Bool :=
    if x.mantissa % 2 = 0 then low ≤ digits * step && digits * step ≤ high
    else low < digits * step && digits * step < high
  let floor := mid / step
  let twice := 2 * (mid % step)
  let nearer := if twice < step then floor
    else if step < twice then floor + 1
    else floor + floor % 2
  let farther := if nearer = floor then floor + 1 else floor
  if nearer ≠ 0 && readsBack nearer then some nearer
  else if farther ≠ 0 && readsBack farther then some farther
  else none

/-- The first grid with a point, from the one at `10 ^ place` down through `fuel` finer
ones. -/
def shortestFrom (x : Binary64) : Nat → Int → Decimal
  | 0, place => ⟨0, place⟩
  | fuel + 1, place =>
    match x.gridPoint? place with
    | some digits => ⟨digits, place⟩
    | none => shortestFrom x fuel (place - 1)

/-- The shortest decimal of a positive magnitude. Numbers stay below `10 ^ 309`, and the
grid at `10 ^ -325` is finer than the last place of all of them. -/
def shortest (x : Binary64) : Decimal :=
  x.shortestFrom 635 309

/-! ## Written form -/

/-- The shortest decimal in figures: positional with at least one digit after the point
when the first digit stands for `10 ^ e` with `-5 ≤ e < 16`, and scientific otherwise. -/
def text (x : Binary64) : String :=
  let sign := if x.negative then "-" else ""
  if x.mantissa = 0 then
    sign ++ "0.0"
  else
    let decimal := x.shortest
    let figures := Nat.toDigits 10 decimal.digits
    let zeros (n : Int) : List Char := List.replicate n.toNat '0'
    let point := (figures.length : Int) + decimal.exponent
    let lead := point - 1
    let written : List Char :=
      if 16 ≤ lead ∨ lead < -5 then
        let fraction := if figures.length = 1 then [] else '.' :: figures.drop 1
        let mark := if lead < 0 then ['e', '-'] else ['e', '+']
        figures.take 1 ++ fraction ++ mark ++ Nat.toDigits 10 lead.natAbs
      else if point ≤ 0 then
        '0' :: '.' :: zeros (-point) ++ figures
      else if 0 ≤ decimal.exponent then
        figures ++ zeros decimal.exponent ++ ['.', '0']
      else
        figures.take point.toNat ++ '.' :: figures.drop point.toNat
    sign ++ String.ofList written

end Binary64

end ProseMap
