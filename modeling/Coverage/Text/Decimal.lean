/-
  Coverage.Text.Decimal

  Whole numbers in decimal: the digits of a number, and readers that accept only numbers
  within a given range.

  A reader takes digits `0` to `9`, any number of leading zeros, and one sign: `+` always,
  `-` only where negative numbers are in range at all. So `-0` is no unsigned number.
-/

namespace Coverage.Text.Decimal

/-- The digits of a number. -/
def ofNat (n : Nat) : List Char :=
  Nat.toDigits 10 n

/-- The digits of a number, after a minus sign if it is negative. -/
def ofInt : Int → List Char
  | .ofNat n => ofNat n
  | .negSucc n => '-' :: ofNat (n + 1)

/-- The number that one or more digits denote. -/
def digits? (cs : List Char) : Option Nat :=
  if cs.isEmpty || !cs.all Char.isDigit then none
  else some (Nat.ofDigitChars 10 cs 0)

/-- A number below `bound`, perhaps after a plus sign. -/
def unsigned? (bound : Nat) (cs : List Char) : Option Nat :=
  let body := match cs with
    | '+' :: rest => rest
    | _ => cs
  (digits? body).filter (· < bound)

/-- A number from `-bound` up to but not including `bound`, perhaps after a sign. -/
def signed? (bound : Nat) : List Char → Option Int
  | '-' :: rest => ((digits? rest).filter (· ≤ bound)).map fun n => -(n : Int)
  | cs => (unsigned? bound cs).map Int.ofNat

/-- One more than the largest line number, branch number or microsecond count: 32 bits. -/
def bound32 : Nat := 0x100000000

/-- One more than the largest seconds count, and than the largest count written: 63 bits. -/
def bound63 : Nat := 0x8000000000000000

/-- One more than the largest count read: 64 bits. -/
def bound64 : Nat := 0x10000000000000000

/-- The digits of `n`, with zeros before them up to `width`. -/
def padded (width n : Nat) : List Char :=
  List.replicate (width - (ofNat n).length) '0' ++ ofNat n

end Coverage.Text.Decimal
