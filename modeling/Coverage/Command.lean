/-
  Coverage.Command

  What the command line prints: the map of a tree, the totals of a trace, and the content
  of a cache.
-/

import Coverage.Cache.Store
import Coverage.Rate
import Coverage.SiteMap.Survey
import Coverage.Trace.Reader

namespace Coverage.Command

open Json (Value)
open Text.Decimal (ofNat ofInt padded)

/-! ## Maps -/

/-- An exit as JSON. -/
def exitValue (e : BranchExit) : Value :=
  .object [("line", Bundle.nat e.line), ("branch_id", Bundle.nat e.index),
    ("exit_lines", Bundle.nats e.candidates)]

/-- A site map as JSON. -/
def mapValue (m : SiteMap) : Value :=
  .object [("executable_lines", Bundle.nats m.lines),
    ("branches", .array (m.exits.map exitValue)),
    ("functions", .array (m.functions.map Bundle.functionValue))]

/-- The map of the tree in a file, as JSON text. -/
def analyze (path : String) (bytes : Option Bytes)
    (detail : String → Option String := fun _ => none) : Except Fault (List Char) :=
  match bytes.bind Text.Utf8.text? with
  | none => .error (.unreadableFile path)
  | some text =>
    match Script.Program.ofText text path detail with
    | .error fault => .error (.misparsed fault)
    | .ok program => .ok (mapValue (SiteMap.ofProgram program)).render

/-! ## Failures -/

/-- How a failure is told: what could not be done, and below it why, where that is known. -/
def failureText (failed : String) : Option String → String
  | some why => "Error: " ++ failed ++ "\n\nCaused by:\n    " ++ why ++ "\n"
  | none => "Error: " ++ failed ++ "\n"

/-- What could not be done if a cache cannot be opened. -/
def openFailure (path : String) : String :=
  "Failed to open cache " ++ path

/-! ## Totals -/

/-- One line of totals, its label padded to a width of its own. -/
def tallyLine (label : String) (t : Tally) : List Char :=
  label.toList ++ ofNat t.hit ++ '/' :: ofNat t.found ++ ' ' :: '(' :: Rate.percent t
    ++ ['%', ')', '\n']

/-- The totals of some sections. Branches and functions are left out if there are none. -/
def totalsText (sections : List Trace.Section) : List Char :=
  let total := Trace.total sections
  "Files:      ".toList ++ ofNat sections.length ++ '\n'
    :: tallyLine "Lines:      " total.lines
    ++ (if 0 < total.branches.found then tallyLine "Branches:   " total.branches else [])
    ++ (if 0 < total.functions.found then tallyLine "Functions:  " total.functions else [])

/-- The totals of the trace in a file. -/
def summary (path : String) (bytes : Option Bytes) : Except Fault (List Char) :=
  match bytes with
  | none => .error (.unreadableFile path)
  | some bytes =>
    match Trace.readBytes? bytes with
    | none => .error .inputOutput
    | some sections => .ok (totalsText sections)

/-! ## Caches -/

/-- Text filled up with blanks to a width. -/
def column (width : Nat) (cs : List Char) : List Char :=
  cs ++ List.replicate (width - cs.length) ' '

/-- How many characters of a digest are shown. -/
def digestShown : Nat := 16

/-- A token as it is shown. -/
def freshnessText : Freshness → List Char
  | .modified seconds micros =>
    "mtime ".toList ++ ofInt seconds ++ '.' :: padded 6 micros
  | .digest hex => "blake3 ".toList ++ hex.toList.take digestShown

/-- One line of the list of entries. -/
def entryLine (id token updated : List Char) : List Char :=
  column 60 id ++ ' ' :: column 24 token ++ ' ' :: updated ++ ['\n']

/-- The entries of a cache as a table. `updated` is what stands in the column that says when
    an entry was written. -/
def cacheList (s : Cache.Store) (updated : String → String) : Except Fault (List Char) := do
  let entries ← s.entries
  if entries.isEmpty then return "No entries in cache.\n".toList
  return entryLine "IDENTITY".toList "VALIDITY".toList "UPDATED".toList
    ++ List.replicate 110 '-' ++ '\n'
    :: entries.flatMap fun e =>
      entryLine e.1.toList (freshnessText e.2) (updated e.1).toList

/-- What is said after all entries have been removed. -/
def clearedText (count : Nat) : List Char :=
  "Removed ".toList ++ ofNat count ++ " entries\n".toList

/-- What is said after a bundle has been written to a file. -/
def exportedText (count : Nat) (path : String) : List Char :=
  "Exported ".toList ++ ofNat count ++ " entries to ".toList ++ path.toList ++ ['\n']

/-- What is said after a bundle has been read from a file. -/
def importedText (count : Nat) (path : String) : List Char :=
  "Imported ".toList ++ ofNat count ++ " entries from ".toList ++ path.toList ++ ['\n']

/-- Reads a bundle into a cache. -/
def importFile (s : Cache.Store) (path : String) (bytes : Option Bytes) :
    Except Fault (List Char × Cache.Store) :=
  match bytes with
  | none => .error (.unreadableFile path)
  | some bytes => do
    let (count, s) ← s.importBundle bytes
    return (importedText count path, s)

/-- The bundle of a cache, and what is said when it is written to a file. -/
def exportFile (s : Cache.Store) (path : String) : Except Fault (List Char × List Char) := do
  let bundle ← s.exportBundle
  return (bundle, exportedText (← s.entries).length path)

end Coverage.Command
