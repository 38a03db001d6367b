import ProseMap.Binary64.Decimal
import ProseMap.Json.Basic
import ProseMap.Json.Flaw

/-!
# Numbers in a JSON text

A numeral without fraction and exponent is an integer as long as it fits 64 bits, signed
or unsigned, and has no negative zero. Every other numeral is a floating point number,
made of the leading digits that fit 64 bits. One that exceeds the largest number can only
be skipped. -/

namespace ProseMap.Json

/-- The parts of a written number. A fraction, where there is one, has digits. -/
structure Numeral where
  negative : Bool
  whole : List Nat
  fraction : List Nat
  exponent : Option Int
deriving DecidableEq, Repr

namespace Numeral

/-- Appends digits to a number while the result fits 64 bits; the digits left begin with
the first that does not fit. -/
def absorb (n : Nat) : List Nat → Nat × List Nat
  | [] => (n, [])
  | d :: ds => if 10 * n + d < wordLimit then absorb (10 * n + d) ds else (n, d :: ds)

/-- The value of a numeral, or nothing when it exceeds the largest floating point
number. -/
def value? (numeral : Numeral) : Option Number :=
  let (digits, excess) := absorb 0 numeral.whole
  if excess = [] ∧ numeral.fraction = [] ∧ numeral.exponent = none then
    if !numeral.negative then
      some (.integer digits)
    else if digits = 0 ∨ Nat.pow 2 63 < digits then
      (Binary64.nearest true digits 1).map .float
    else
      some (.integer (-digits))
  else
    let (digits, unused) := absorb digits numeral.fraction
    let used := numeral.fraction.length - unused.length
    let exponent := (excess.length : Int) - used + numeral.exponent.getD 0
    (Binary64.ofDecimal numeral.negative digits exponent).map .float

/-! ## Scanning -/

/-- The decimal digits in front of a text, and the text after them. -/
def scanDigits (cs : List Char) : List Nat × List Char :=
  ((cs.takeWhile Char.isDigit).map fun c => c.toNat - '0'.toNat,
    cs.dropWhile Char.isDigit)

/-- Stands for a number whose digits are missing. At the end of the text a reader waits
for more, while one who skips takes the number as wrong. -/
def digitsDue (cs : List Char) : Token Number :=
  ⟨.error (if cs.isEmpty then .truncated else .malformed), .error .malformed⟩

def scanFraction : List Char → Except (Token Number) (List Nat × List Char)
  | '.' :: cs =>
    let (digits, rest) := scanDigits cs
    if digits.isEmpty then .error (digitsDue rest) else .ok (digits, rest)
  | cs => .ok ([], cs)

def scanExponent : List Char → Except (Token Number) (Option Int × List Char)
  | c :: cs =>
    if c = 'e' || c = 'E' then
      let (negative, cs) := match cs with
        | '-' :: cs => (true, cs)
        | '+' :: cs => (false, cs)
        | cs => (false, cs)
      let (digits, rest) := scanDigits cs
      let size : Nat := digits.foldl (fun n d => 10 * n + d) 0
      if digits.isEmpty then .error (digitsDue rest)
      else .ok (some (if negative then -size else size), rest)
    else
      .ok (none, c :: cs)
  | [] => .ok (none, [])

/-- A sign, whole digits without a leading zero, a fraction and an exponent. -/
def scan (cs : List Char) : Except (Token Number) (Numeral × List Char) := do
  let (negative, cs) := match cs with
    | '-' :: cs => (true, cs)
    | cs => (false, cs)
  let (whole, cs) := scanDigits cs
  match whole with
  | [] => throw (digitsDue cs)
  | 0 :: _ :: _ => throw (.broken .malformed)
  | _ =>
    let (fraction, cs) ← scanFraction cs
    let (exponent, cs) ← scanExponent cs
    return (⟨negative, whole, fraction, exponent⟩, cs)

/-- The number token in front of a text, with the text after it unless the token is
broken. -/
def token (cs : List Char) : Token Number × Option (List Char) :=
  match scan cs with
  | .ok (numeral, rest) => (.skippable numeral.value?, some rest)
  | .error broken => (broken, none)

end Numeral

end ProseMap.Json
