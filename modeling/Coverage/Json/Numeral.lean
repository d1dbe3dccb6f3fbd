/-
  Coverage.Json.Numeral

  A JSON number as it is written, and what it denotes.

  Integers of 64 bits are kept exactly. Any other number is a real: this library never
  computes with one, but a reader still refuses a real that is beyond the range of
  binary64. `Numeral.overflows` states that limit in whole numbers: the leading digits
  that fit 64 bits and the power of ten are each rounded to 53 bits, and their product
  must stay below the midpoint between the largest finite value and the next power of two.
-/

import Coverage.Text.Decimal

namespace Coverage.Json

open Text (Decimal.bound63 Decimal.bound64)

/-- The parts of a number: its sign, the digits before and after the point, and the
    exponent with its sign. A part that is not written is `none`. -/
structure Numeral where
  negative : Bool
  whole : List Char
  fraction : Option (List Char)
  exponent : Option (Bool × List Char)
  deriving DecidableEq, Repr

namespace Numeral

/-! ## Integers -/

/-- The integer a numeral denotes, if it has neither fraction nor exponent and fits 64 bits.
    A negative zero is not an integer. -/
def integer? (n : Numeral) : Option Int :=
  if n.fraction.isSome || n.exponent.isSome then none
  else
    let value := Nat.ofDigitChars 10 n.whole 0
    if n.negative then
      if 0 < value ∧ value ≤ Decimal.bound63 then some (-(value : Int)) else none
    else
      if value < Decimal.bound64 then some value else none

/-! ## Range of reals -/

/-- A significand and a power of ten. -/
structure Scaled where
  significand : Nat
  scale : Int

/-- Takes the digits before the point while the significand fits 64 bits; every digit after
    that only multiplies by ten. -/
def takeWhole (acc : Scaled) : List Char → Scaled
  | [] => acc
  | d :: rest =>
    let next := acc.significand * 10 + (d.toNat - '0'.toNat)
    if next < Decimal.bound64 then takeWhole ⟨next, acc.scale⟩ rest
    -- This digit and all after it are dropped.
    else ⟨acc.significand, acc.scale + (rest.length + 1)⟩

/-- Takes the digits after the point while the significand fits 64 bits, and drops the rest. -/
def takeFraction (acc : Scaled) : List Char → Scaled
  | [] => acc
  | d :: rest =>
    let next := acc.significand * 10 + (d.toNat - '0'.toNat)
    if next < Decimal.bound64 then takeFraction ⟨next, acc.scale - 1⟩ rest
    else acc

/-- The number the exponent part denotes. -/
def exponentValue (n : Numeral) : Int :=
  match n.exponent with
  | none => 0
  | some (negative, ds) =>
    let value := Nat.ofDigitChars 10 ds 0
    if negative then -(value : Int) else value

/-- The significand and scale that stand for a numeral. -/
def scaled (n : Numeral) : Scaled :=
  let whole := takeWhole ⟨0, 0⟩ n.whole
  let both := takeFraction whole (n.fraction.getD [])
  ⟨both.significand, both.scale + n.exponentValue⟩

/-- The nearest number with at most 53 significant bits; of two, the one whose last such bit
    is zero. -/
def round53 (n : Nat) : Nat :=
  let excess := Nat.log2 n + 1 - 53
  let unit := Nat.pow 2 excess
  let quotient := n / unit
  let rest := n % unit
  let up := unit < 2 * rest ∨ (unit = 2 * rest ∧ quotient % 2 = 1)
  (if up then quotient + 1 else quotient) * unit

/-- Powers of ten above this one are beyond the range of binary64. -/
def largestScale : Nat := 308

/-- The midpoint between the largest finite binary64 number and the next power of two. -/
def rangeEnd : Nat :=
  Nat.pow 2 1024 - Nat.pow 2 970

/-- Whether a numeral is beyond the range of binary64. -/
def overflows (n : Numeral) : Bool :=
  let s := n.scaled
  if s.significand = 0 ∨ s.scale < 0 then false
  else if largestScale < s.scale.toNat then true
  else
    rangeEnd ≤ round53 s.significand * round53 (Nat.pow 10 s.scale.toNat)

end Numeral
end Coverage.Json
