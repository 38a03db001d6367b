/-!
# Binary floating point of 64 bits

A finite number of the format is a sign, a mantissa below 2 ^ 53 and an exponent of two.
Arithmetic is exact first and rounded once, to the nearest number of the format and on a
tie to the even mantissa; `nearest` is that rounding, for a fraction of natural numbers.
-/

namespace ProseMap

/-- The number `mantissa * 2 ^ exponent` with a sign; zero has a sign too. The exponent is
as small as the format allows, so that a number has one form. -/
structure Binary64 where
  negative : Bool
  mantissa : Nat
  exponent : Int
deriving DecidableEq, Repr

namespace Binary64

/-- The least exponent, that of zero and of the numbers too small for a full mantissa. -/
def leastExponent : Int := -1074

/-- The greatest exponent; above it a number is out of range. -/
def greatestExponent : Int := 971

/-- The least mantissa of 53 bits. -/
def leastFull : Nat := Nat.pow 2 52

def zero (negative : Bool) : Binary64 :=
  ⟨negative, 0, leastExponent⟩

/-- The natural number nearest to a fraction; a half goes to the even neighbour. -/
def roundHalfEven (num den : Nat) : Nat :=
  let floor := num / den
  let twice := 2 * (num % den)
  if twice < den then floor
  else if den < twice then floor + 1
  else floor + floor % 2

/-- The fraction `num / den / 2 ^ exponent`, as numerator and denominator. -/
def descale (num den : Nat) (exponent : Int) : Nat × Nat :=
  (num * Nat.pow 2 (-exponent).toNat, den * Nat.pow 2 exponent.toNat)

/-- The exponent at which a positive fraction has a mantissa of 53 bits, or the least
one. -/
def exponentOf (num den : Nat) : Int :=
  let guess : Int := (num.log2 : Int) - den.log2 - 52
  let (n, d) := descale num den guess
  max leastExponent (if n / d < leastFull then guess - 1 else guess)

/-- The number nearest to a fraction, or nothing when that is beyond the largest one. -/
def nearest (negative : Bool) (num den : Nat) : Option Binary64 :=
  if num = 0 then
    some (zero negative)
  else
    let exponent := exponentOf num den
    let (n, d) := descale num den exponent
    let mantissa := roundHalfEven n d
    let (mantissa, exponent) :=
      if mantissa = 2 * leastFull then (leastFull, exponent + 1) else (mantissa, exponent)
    if exponent ≤ greatestExponent then some ⟨negative, mantissa, exponent⟩ else none

/-- The number without its sign, as numerator and denominator. -/
def magnitude (x : Binary64) : Nat × Nat :=
  (x.mantissa * Nat.pow 2 x.exponent.toNat, Nat.pow 2 (-x.exponent).toNat)

/-- The rounded product, or nothing when it is out of range. -/
def mul? (x y : Binary64) : Option Binary64 :=
  let (n, d) := x.magnitude
  let (n', d') := y.magnitude
  nearest (x.negative != y.negative) (n * n') (d * d')

/-- The rounded quotient, or nothing when it is out of range or divides by zero. -/
def div? (x y : Binary64) : Option Binary64 :=
  let (n, d) := x.magnitude
  let (n', d') := y.magnitude
  if n' = 0 then none else nearest (x.negative != y.negative) (n * d') (d * n')

end Binary64

end ProseMap
