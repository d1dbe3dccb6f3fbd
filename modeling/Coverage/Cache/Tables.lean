/-
  Coverage.Cache.Tables

  The tables that cached site maps are kept in.

  An entry has a row of its own under a number, and its lines, exits, candidates and
  functions have rows in four more tables that refer to the entry by that number. Removing
  an entry removes all rows that refer to it, so its number may be given to another entry.
  A line or a candidate that is already there is not added twice; an exit or a function
  whose key is already there is refused.

  The time at which a row was written is left out: no rule here depends on it, and who prints
  a list of the entries is given it (`Command.cacheList`).
-/

import Coverage.Fault
import Coverage.SiteMap.Basic
import Coverage.Source.Revision

namespace Coverage.Cache

/-- The row of an entry. A sound row has exactly one of the two tokens. -/
structure EntryRow where
  number : Nat
  id : String
  modified : Option (Int × Nat)
  digest : Option String
  deriving DecidableEq, Repr

/-- A line of an entry. -/
structure LineRow where
  entry : Nat
  line : Nat
  deriving DecidableEq, Repr

/-- A branch exit of an entry. -/
structure ExitRow where
  entry : Nat
  line : Nat
  index : Nat
  deriving DecidableEq, Repr

/-- A candidate of a branch exit. -/
structure CandidateRow where
  exit : ExitRow
  line : Nat
  deriving DecidableEq, Repr

/-- A function of an entry. -/
structure FunctionRow where
  entry : Nat
  function : FunctionSpan
  deriving DecidableEq, Repr

/-- All rows, each table in the order in which its rows were added. -/
structure Tables where
  entries : List EntryRow
  lines : List LineRow
  exits : List ExitRow
  candidates : List CandidateRow
  functions : List FunctionRow
  deriving DecidableEq, Repr

namespace Tables

/-- Tables without rows. -/
def empty : Tables :=
  ⟨[], [], [], [], []⟩

/-! ## Entries -/

/-- The row of an identity. -/
def find? (t : Tables) (id : String) : Option EntryRow :=
  t.entries.find? (·.id = id)

/-- The entries in order of identity. -/
def ordered (t : Tables) : List EntryRow :=
  t.entries.mergeSort fun a b => !decide (b.id < a.id)

/-- The next number: one more than the largest in use. -/
def nextNumber (t : Tables) : Nat :=
  (t.entries.map EntryRow.number).foldl max 0 + 1

/-- Removes the entries of a kind and all rows that refer to them. -/
def removeWhere (t : Tables) (doomed : EntryRow → Bool) : Tables :=
  let gone := (t.entries.filter doomed).map EntryRow.number
  { entries := t.entries.filter fun e => !doomed e
    lines := t.lines.filter fun r => !gone.contains r.entry
    exits := t.exits.filter fun r => !gone.contains r.entry
    candidates := t.candidates.filter fun r => !gone.contains r.exit.entry
    functions := t.functions.filter fun r => !gone.contains r.entry }

/-- Removes the entry of an identity. -/
def remove (t : Tables) (id : String) : Tables :=
  t.removeWhere (·.id = id)

/-! ## Adding rows -/

/-- Adds a line, unless it is there. -/
def addLine (entry : Nat) (t : Tables) (line : Nat) : Tables :=
  if t.lines.contains ⟨entry, line⟩ then t
  else { t with lines := t.lines ++ [⟨entry, line⟩] }

/-- Adds a candidate of an exit, unless it is there. -/
def addCandidate (exit : ExitRow) (t : Tables) (line : Nat) : Tables :=
  if t.candidates.contains ⟨exit, line⟩ then t
  else { t with candidates := t.candidates ++ [⟨exit, line⟩] }

/-- Adds an exit with its candidates; it must not be there. -/
def addExit (entry : Nat) (t : Tables) (e : BranchExit) : Except Fault Tables :=
  let row : ExitRow := ⟨entry, e.line, e.index⟩
  if t.exits.contains row then .error .repeatedExit
  else .ok (e.candidates.foldl (addCandidate row) { t with exits := t.exits ++ [row] })

/-- Adds a function; none with its key must be there. -/
def addFunction (entry : Nat) (t : Tables) (f : FunctionSpan) : Except Fault Tables :=
  if t.functions.any fun r => r.entry = entry ∧ r.function.key = f.key then
    .error .repeatedFunction
  else .ok { t with functions := t.functions ++ [⟨entry, f⟩] }

/-- Adds a site map under the number of an entry. -/
def addMap (entry : Nat) (t : Tables) (m : SiteMap) : Except Fault Tables := do
  let t := m.lines.foldl (addLine entry) t
  let t ← m.exits.foldlM (addExit entry) t
  m.functions.foldlM (addFunction entry) t

/-- The row of a revision under a number. -/
def rowOf (number : Nat) (r : Revision) : EntryRow where
  number := number
  id := r.id.text
  modified := match r.freshness with
    | .modified seconds micros => some (seconds, micros)
    | .digest _ => none
  digest := match r.freshness with
    | .modified .. => none
    | .digest hex => some hex

/-- Adds an entry under the next number, and its site map. -/
def addEntry (t : Tables) (r : Revision) (m : SiteMap) : Except Fault Tables :=
  let number := t.nextNumber
  addMap number { t with entries := t.entries ++ [rowOf number r] } m

/-! ## Reading rows -/

/-- The token of a row. -/
def freshness (row : EntryRow) : Except Fault Freshness :=
  match row.modified, row.digest with
  | some (seconds, micros), none => .ok (.modified seconds micros)
  | none, some hex => .ok (.digest hex)
  | _, _ => .error (.corruptEntry row.id)

/-- The site map that stands under the number of an entry: every exit is joined with its
    candidates, and one without any is kept. -/
def map (t : Tables) (entry : Nat) : SiteMap :=
  SiteMap.canonical
    { lines := (t.lines.filter (·.entry = entry)).map LineRow.line
      exits := (t.exits.filter (·.entry = entry)).map fun row =>
        { line := row.line
          index := row.index
          candidates := (t.candidates.filter (·.exit = row)).map CandidateRow.line }
      functions := (t.functions.filter (·.entry = entry)).map FunctionRow.function }

/-! ## Damage -/

/-- How the token of a row may be damaged. -/
inductive TokenDamage where
  | bothTokens
  | noToken
  deriving DecidableEq, Repr

/-- A row with a damaged token. -/
def TokenDamage.apply (d : TokenDamage) (row : EntryRow) : EntryRow :=
  match d with
  | .bothTokens => { row with modified := some (1, 2), digest := some "ab" }
  | .noToken => { row with modified := none, digest := none }

/-- Damages the token of one entry, or of all. -/
def damage (t : Tables) (d : TokenDamage) (id : Option String) : Tables :=
  { t with entries := t.entries.map fun row =>
      if id.all (row.id = ·) then d.apply row else row }

end Tables
end Coverage.Cache
