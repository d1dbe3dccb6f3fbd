/-
  Coverage.Rate

  The covered share of a total, and its text in percent.

  A share is a binary64 number: both counts are rounded to binary64 and then divided. The
  text has one decimal place and is the exact value rounded once; a half goes to the even
  neighbour.
-/

import Coverage.Tally
import Coverage.Text.Decimal

namespace Coverage

/-- The share of a total that is covered, 0 if there is nothing to cover. -/
def rate (covered total : Nat) : Float :=
  if total = 0 then 0.0 else covered.toUInt64.toFloat / total.toUInt64.toFloat

/-- The share of what was found that was hit. -/
def Tally.rate (t : Tally) : Float :=
  Coverage.rate t.hit t.found

namespace Rate

/-- The quotient rounded to the nearest whole number, a half to the even one. -/
def roundHalfEven (numerator denominator : Nat) : Nat :=
  let quotient := numerator / denominator
  let rest := numerator % denominator
  if denominator < 2 * rest ∨ (denominator = 2 * rest ∧ quotient % 2 = 1) then quotient + 1
  else quotient

/-- The leading bit of a significand, which is not stored. -/
def hidden : Nat := 0x10000000000000

/-- The exact value of a finite binary64 number that is not negative, as a quotient, from
    its bits: the exponent is biased by 1075, and all but the smallest exponent have a
    leading bit that is not stored. -/
def quotientOfBits (bits : Nat) : Nat × Nat :=
  let stored := bits % hidden
  let exponent := bits / hidden % 0x800
  let significand := if exponent = 0 then stored else stored + hidden
  let scale := max exponent 1
  if 1075 ≤ scale then (significand * Nat.pow 2 (scale - 1075), 1)
  else (significand, Nat.pow 2 (1075 - scale))

/-- A number in decimal with one place. -/
def oneDecimal (x : Float) : List Char :=
  let q := quotientOfBits x.toBits.toNat
  let tenths := roundHalfEven (q.1 * 10) q.2
  Text.Decimal.ofNat (tenths / 10) ++ '.' :: Text.Decimal.ofNat (tenths % 10)

/-- A tally's share in percent. -/
def percent (t : Tally) : List Char :=
  oneDecimal (t.rate * 100.0)

end Rate
end Coverage
