import ProseMap.Binary64.Basic

/-!
# Decimal numbers as binary floating point

A decimal is read in two roundings: its digits are rounded to a number, and that number is
multiplied or divided by the rounded power of ten. What lies too far below one for a
single power of ten is divided twice. -/

namespace ProseMap.Binary64

/-- The greatest power of ten that is a finite number. -/
def greatestPower : Nat := 308

/-- The number nearest to a power of ten. -/
def powerOfTen (k : Nat) : Option Binary64 :=
  nearest false (Nat.pow 10 k) 1

/-- The number read for `digits * 10 ^ exponent`, or nothing when it is out of range. -/
def ofDecimal (negative : Bool) (digits : Nat) (exponent : Int) : Option Binary64 := do
  let unscaled ← nearest negative digits 1
  if digits = 0 then
    return unscaled
  else if 0 ≤ exponent then
    if exponent ≤ greatestPower then
      unscaled.mul? (← powerOfTen exponent.toNat)
    else
      none
  else
    let below := (-exponent).toNat
    if below ≤ greatestPower then
      unscaled.div? (← powerOfTen below)
    else if below ≤ 2 * greatestPower then
      let once ← unscaled.div? (← powerOfTen greatestPower)
      once.div? (← powerOfTen (below - greatestPower))
    else
      return zero negative

end ProseMap.Binary64
