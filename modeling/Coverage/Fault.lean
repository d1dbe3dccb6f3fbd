/-
  Coverage.Fault

  What can go wrong, by cause, and the text that tells of it.
-/

import Coverage.Script.Reflected

namespace Coverage

/-- Why an operation failed. -/
inductive Fault where
  /-- A file could not be read or written, or text is malformed. -/
  | inputOutput
  /-- There is no such file or resource. -/
  | missing (id : String)
  /-- The source is outside the set of tracked paths. -/
  | untracked (id : String)
  /-- The script has no syntax tree. -/
  | misparsed (fault : Script.SyntaxFault)
  /-- A bundle is not JSON of the right shape. -/
  | malformedBundle
  /-- The digest of an entry in a bundle is empty or not hexadecimal. -/
  | malformedDigest (id : String)
  /-- An entry in a bundle has no token, or two. -/
  | ambiguousFreshness (id : String)
  /-- An entry of the cache has no token, or two. -/
  | corruptEntry (id : String)
  /-- Two exits of one entry agree in line and number. -/
  | repeatedExit
  /-- Two functions of one entry agree in key. -/
  | repeatedFunction
  /-- The cache accepts no more entries. -/
  | diskFull
  /-- The cache can be read but not changed. -/
  | readOnly
  /-- The database of the cache is gone while it is in use. -/
  | malformedDatabase
  /-- A file that was asked for by path could not be read. -/
  | unreadableFile (path : String)
  /-- A file that was asked for by path could not be written. -/
  | unwritableFile (path : String)
  deriving DecidableEq, Repr

namespace Fault

/-- The text of a fault. `detail` is what the system says of a file that cannot be read or
    written, or the parser of JSON of a bundle; the text of such a fault ends in it. -/
def message (fault : Fault) (detail : Option String := none) : String :=
  match fault with
  | .inputOutput => Script.withDetail "I/O error" detail
  | .missing id => "No such file or resource: " ++ id
  | .untracked id => "Not in the coverage path set: " ++ id
  | .misparsed fault => fault.text
  | .malformedBundle => Script.withDetail "Invalid cache blob" detail
  | .malformedDigest id => "Invalid cache blob: entry '" ++ id ++ "' has a checksum that is not hex"
  | .ambiguousFreshness id =>
    "Invalid cache blob: entry '" ++ id ++ "' must have exactly one of mtime and checksum"
  | .corruptEntry id => "corrupt cache entry for '" ++ id ++ "'"
  | .repeatedExit =>
    "SQLite error: UNIQUE constraint failed: " ++
      "cached_branch.entry_id, cached_branch.line_number, cached_branch.branch_index"
  | .repeatedFunction =>
    "SQLite error: UNIQUE constraint failed: cached_function.entry_id, cached_function.key"
  | .diskFull => "SQLite error: disk full"
  | .readOnly => "SQLite error: attempt to write a readonly database"
  | .malformedDatabase => "SQLite error: database disk image is malformed"
  | .unreadableFile path => "Failed to read " ++ path
  | .unwritableFile path => "Failed to write " ++ path

end Fault
end Coverage
