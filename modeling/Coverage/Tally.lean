/-
  Coverage.Tally

  How much was found and how much of it was hit: one tally a category, and the totals of a
  file or of many.
-/

namespace Coverage

/-- How many there are, and how many of them were hit. -/
structure Tally where
  found : Nat
  hit : Nat
  deriving DecidableEq, Repr, Inhabited

namespace Tally

/-- The tally of some things, by whether each was hit. -/
def ofHits (hits : List Bool) : Tally :=
  ⟨hits.length, hits.countP id⟩

/-- Two tallies of different things taken together. -/
def add (a b : Tally) : Tally :=
  ⟨a.found + b.found, a.hit + b.hit⟩

instance : Add Tally :=
  ⟨add⟩

end Tally

/-- The tallies of all categories. -/
structure Totals where
  lines : Tally
  branches : Tally
  functions : Tally
  deriving DecidableEq, Repr, Inhabited

namespace Totals

/-- The totals of nothing. -/
def zero : Totals :=
  ⟨⟨0, 0⟩, ⟨0, 0⟩, ⟨0, 0⟩⟩

/-- Two totals taken together. -/
def add (a b : Totals) : Totals :=
  ⟨a.lines + b.lines, a.branches + b.branches, a.functions + b.functions⟩

instance : Add Totals :=
  ⟨add⟩

/-- Many totals taken together. -/
def sum (ts : List Totals) : Totals :=
  ts.foldl (· + ·) zero

end Totals
end Coverage
