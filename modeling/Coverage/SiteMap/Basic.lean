/-
  Coverage.SiteMap.Basic

  The site map of a script: the lines that can run, the exits of its decisions, and its
  functions.

  A map is canonical when its lines ascend without repetition, its exits are ordered by
  line and number with ascending candidates, and its functions are ordered by key.
  `canonical` brings any map into that form; exits or functions that agree in what they are
  ordered by keep their order.
-/

import Coverage.LineSet
import Coverage.SiteMap.FunctionSpan

namespace Coverage

/-- One exit of a decision. -/
structure BranchExit where
  /-- The line of the decision. -/
  line : Nat
  /-- The number of the exit among those of its line, in the order they were found. -/
  index : Nat
  /-- The executable lines of the exit's body: if one of them runs, the exit was taken. -/
  candidates : List Nat
  deriving DecidableEq, Repr, Inhabited

/-- What coverage can be measured on in one script. -/
structure SiteMap where
  lines : List Nat
  exits : List BranchExit
  functions : List FunctionSpan
  deriving DecidableEq, Repr, Inhabited

namespace SiteMap

/-! ## Canonical form -/

/-- Whether an exit comes before another, or at the same place. -/
def exitLE (a b : BranchExit) : Bool :=
  a.line < b.line || (a.line == b.line && a.index ≤ b.index)

/-- Whether a function comes before another, or at the same place. -/
def functionLE (a b : FunctionSpan) : Bool :=
  !decide (b.key < a.key)

/-- The map in canonical form. -/
def canonical (m : SiteMap) : SiteMap where
  lines := LineSet.ofList m.lines
  exits := (m.exits.mergeSort exitLE).map fun e =>
    { e with candidates := LineSet.ofList e.candidates }
  functions := m.functions.mergeSort functionLE

/-! ## Looking up -/

/-- The slot of a key between two bounds, in functions ordered by key: the middle one is
    compared, and the search goes on on one side of it. -/
def searchKey (functions : Array FunctionSpan) (key : String) (low high : Nat) : Option Nat :=
  if low < high then
    let middle := low + (high - low) / 2
    match functions[middle]? with
    | none => none
    | some f =>
      if f.key < key then searchKey functions key (middle + 1) high
      else if f.key = key then some middle
      else searchKey functions key low middle
  else none
termination_by high - low

/-- The slot of the function with a key, in a canonical map. -/
def functionIndex? (m : SiteMap) (key : String) : Option Nat :=
  searchKey m.functions.toArray key 0 m.functions.length

/-- The largest line that the map mentions. The lines are taken to ascend, so the last of
    them stands for all. -/
def maxLine (m : SiteMap) : Nat :=
  let lines := (m.lines.getLast?).getD 0
  let exits := (m.exits.flatMap fun e => e.line :: e.candidates).foldl max 0
  let functions := (m.functions.map FunctionSpan.endLine).foldl max 0
  max (max lines exits) functions

end SiteMap
end Coverage
