/-
  Coverage.Trace.Writer

  A ledger written as one section of a trace.

  A section is a list of records, one a line: the path, then the functions, the branch
  exits and the lines of the map in its order, each group followed by how many there are
  and how many were hit. A file in which nothing ran has no section.
-/

import Coverage.Hits.Ledger
import Coverage.Text.Decimal

namespace Coverage.Trace

open Text.Decimal (ofNat ofInt)

/-- One line of a trace. -/
inductive Record where
  | path (p : List Char)
  | function (line : Nat) (key : List Char)
  | calls (hits : Nat) (key : List Char)
  | exit (line index : Nat) (state : ExitState)
  | ran (line hits : Nat)
  /-- How many there are of a category, with the two letters that name it. -/
  | found (tag : List Char) (n : Nat)
  /-- How many of a category were hit. -/
  | hit (tag : List Char) (n : Nat)
  | sectionEnd

namespace Record

/-- The number of times an exit was taken, or a dash if its decision never ran. -/
def takenText : ExitState → List Char
  | .notReached => ['-']
  | state => ofInt state.asCount

/-- The text of a record, without its line end. -/
def text : Record → List Char
  | .path p => 'S' :: 'F' :: ':' :: p
  | .function line key => 'F' :: 'N' :: ':' :: ofNat line ++ ',' :: key
  | .calls hits key => 'F' :: 'N' :: 'D' :: 'A' :: ':' :: ofNat hits ++ ',' :: key
  | .exit line index state =>
    'B' :: 'R' :: 'D' :: 'A' :: ':' :: ofNat line ++ ',' :: '0' :: ',' :: ofNat index
      ++ ',' :: takenText state
  | .ran line hits => 'D' :: 'A' :: ':' :: ofNat line ++ ',' :: ofNat hits
  | .found tag n => tag ++ 'F' :: ':' :: ofNat n
  | .hit tag n => tag ++ 'H' :: ':' :: ofNat n
  | .sectionEnd => ['e', 'n', 'd', '_', 'o', 'f', '_', 'r', 'e', 'c', 'o', 'r', 'd']

end Record

/-- The records of a file's section. -/
def records (path : List Char) (l : Ledger) : List Record :=
  let totals := l.totals
  [.path path]
    ++ l.map.functions.map (fun f => .function f.line f.key.toList)
    ++ l.functionHits.map (fun f => .calls f.2 f.1.key.toList)
    ++ [.found ['F', 'N'] totals.functions.found, .hit ['F', 'N'] totals.functions.hit]
    ++ l.map.exits.map (fun e => .exit e.line e.index (l.exitState e))
    ++ [.found ['B', 'R'] totals.branches.found, .hit ['B', 'R'] totals.branches.hit]
    ++ l.map.lines.map (fun line => .ran line (l.lineHits line))
    ++ [.found ['L'] totals.lines.found, .hit ['L'] totals.lines.hit]
    ++ [.sectionEnd]

/-- Records written one a line. -/
def write (rs : List Record) : List Char :=
  rs.flatMap fun r => r.text ++ ['\n']

/-- The section of a file, unless nothing in it ran. -/
def section? (path : List Char) (l : Ledger) : Option (List Char) :=
  if l.counters.anyRan then some (write (records path l)) else none

end Coverage.Trace
