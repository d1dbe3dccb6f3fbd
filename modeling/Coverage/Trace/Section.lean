/-
  Coverage.Trace.Section

  The sections of a trace: what was counted in one file, as far as a trace tells.
-/

import Coverage.Tally

namespace Coverage.Trace

/-- A function with its calls. The line is `none` if the trace does not tell where the
    function stands. -/
structure FunctionCount where
  name : String
  line : Option Nat
  hits : Nat
  deriving DecidableEq, Repr

/-- A branch exit. It was taken `none` times if its decision never ran. -/
structure BranchCount where
  line : Nat
  block : Nat
  branch : Nat
  taken : Option Nat
  deriving DecidableEq, Repr

/-- A line with how often it ran. -/
structure LineCount where
  line : Nat
  hits : Nat
  deriving DecidableEq, Repr

/-- What was counted in one file. -/
structure Section where
  path : String
  functions : List FunctionCount
  branches : List BranchCount
  lines : List LineCount
  deriving DecidableEq, Repr

namespace Section

/-- A section in which nothing is recorded yet. -/
def opened (path : String) : Section :=
  ⟨path, [], [], []⟩

/-- What was found and what was hit, by the records of the section alone. -/
def totals (s : Section) : Totals where
  lines := .ofHits (s.lines.map fun l => 0 < l.hits)
  branches := .ofHits (s.branches.map fun b => b.taken.any (0 < ·))
  functions := .ofHits (s.functions.map fun f => 0 < f.hits)

end Section

/-- The totals of all sections. -/
def total (sections : List Section) : Totals :=
  .sum (sections.map Section.totals)

end Coverage.Trace
