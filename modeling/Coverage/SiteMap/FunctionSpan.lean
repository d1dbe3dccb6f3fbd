/-
  Coverage.SiteMap.FunctionSpan

  Functions of a script and the keys that tell them apart.

  A key is the name, the line and the number among functions of that name on that line,
  joined by colons. A name may hold colons itself, so a key is read from its end.
-/

import Coverage.Text.Decimal
import Coverage.Text.Cut

namespace Coverage

/-- A function of a script. -/
structure FunctionSpan where
  key : String
  /-- The line of its declaration. -/
  line : Nat
  /-- Its last line, body included. -/
  endLine : Nat
  /-- The first executable line of its body, functions inside it left out: where an engine
      reports that the function was entered. -/
  bodyLine : Option Nat
  deriving DecidableEq, Repr, Inhabited

namespace FunctionSpan

open Text (cutLast?)

/-! ## Keys -/

/-- The name that stands in the key of a function without one. -/
def anonymous : List Char :=
  ['(', 'a', 'n', 'o', 'n', 'y', 'm', 'o', 'u', 's', ')']

/-- The key of a function, by its name, its line and its number among equals. -/
def keyOf (name : Option String) (line index : Nat) : String :=
  String.ofList <|
    (name.map String.toList).getD anonymous
      ++ ':' :: Text.Decimal.ofNat line ++ ':' :: Text.Decimal.ofNat index

/-- The declared name, read from the key: what stands before its last two colons. -/
def name? (f : FunctionSpan) : Option String :=
  match cutLast? ':' f.key.toList with
  | none => none
  | some (front, _) =>
    match cutLast? ':' front with
    | none => none
    | some (name, _) => if name = anonymous then none else some (String.ofList name)

/-- The number among functions of the same name and line, read from the key: what stands
    after its last colon, or 0 if that is no number. -/
def index (f : FunctionSpan) : Nat :=
  let last := match cutLast? ':' f.key.toList with
    | some (_, last) => last
    | none => f.key.toList
  (Text.Decimal.unsigned? Text.Decimal.bound32 last).getD 0

/-! ## Spans -/

/-- A function on one line, its body unknown. -/
def declared (name : Option String) (line index : Nat) : FunctionSpan :=
  ⟨keyOf name line index, line, line, none⟩

/-- The function with its last line and its body's first; it cannot end before it begins. -/
def withBody (f : FunctionSpan) (endLine : Nat) (bodyLine : Option Nat) : FunctionSpan :=
  { f with endLine := max endLine f.line, bodyLine }

/-- Whether a line lies between the first and the last line of the function. -/
def contains (f : FunctionSpan) (line : Nat) : Bool :=
  f.line ≤ line && line ≤ f.endLine

theorem contains_iff {f : FunctionSpan} {line : Nat} :
    f.contains line = true ↔ f.line ≤ line ∧ line ≤ f.endLine := by
  simp only [contains, Bool.and_eq_true, decide_eq_true_eq]

end FunctionSpan
end Coverage
