/-
  Coverage.Bundle.Reader

  Typed reading of JSON documents.

  A structure is an object with its fields in any order, or an array of all its fields in
  theirs. A field may stand in an object once; fields that are not known are skipped
  without a look at their values. Numbers must be integers in range.
-/

import Coverage.Json.Document
import Coverage.Text.Decimal

namespace Coverage.Bundle

open Json

/-- A way to read a value of some type. -/
abbrev Reader (α : Type) := Document → Option α

namespace Reader

/-- An integer in a range given by a test. -/
def integer (inRange : Int → Bool) : Reader Int
  | .number n => n.integer?.filter inRange
  | _ => none

/-- A natural number of 32 bits. -/
def nat32 : Reader Nat := fun d =>
  (integer (fun i => 0 ≤ i && i < Text.Decimal.bound32) d).map Int.toNat

/-- A signed number of 64 bits. -/
def int64 : Reader Int :=
  integer fun i => -(Text.Decimal.bound63 : Int) ≤ i && i < Text.Decimal.bound63

/-- A string. -/
def text : Reader String
  | .text t => t.string?
  | _ => none

/-- A value, or null. -/
def optional {α : Type} (read : Reader α) : Reader (Option α)
  | .null => some none
  | d => (read d).map some

/-- A list of values. -/
def list {α : Type} (read : Reader α) : Reader (List α)
  | .array items => items.mapM read
  | _ => none

/-- Exactly two values. -/
def pair {α β : Type} (first : Reader α) (second : Reader β) : Reader (α × β)
  | .array [a, b] => do return (← first a, ← second b)
  | _ => none

/-- The values of the fields of a structure, in the order of their names; `none` for a field
    that is not there. -/
def fields (names : List String) : Reader (List (Option Document))
  | .array items => if items.length = names.length then some (items.map some) else none
  | .object members => do
    let keyed ← members.mapM fun m => (m.1.string?).map fun k => (k, m.2)
    guard (names.all fun name => (keyed.filter (·.1 = name)).length ≤ 1)
    return names.map fun name => keyed.lookup name
  | _ => none

/-- A field that must be there. -/
def required {α : Type} (read : Reader α) : Option Document → Option α
  | some d => read d
  | none => none

/-- A field that may be missing. -/
def lenient {α : Type} (read : Reader α) : Option Document → Option (Option α)
  | some d => optional read d
  | none => some none

end Reader
end Coverage.Bundle
