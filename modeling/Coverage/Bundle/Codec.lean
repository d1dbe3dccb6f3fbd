/-
  Coverage.Bundle.Codec

  Bundles of cache entries as JSON text.

  A bundle is one object with a member for each identity, in order of identity. `encode`
  writes every list in the order in which it is given, so bundles of canonical site maps
  are equal if their entries are. `decode` takes any JSON of the right shape and gives
  canonical maps; of two members with one key the last counts.
-/

import Coverage.Bundle.Record
import Coverage.Bundle.Reader
import Coverage.Json.Printer
import Coverage.Text.Utf8

namespace Coverage.Bundle

open Json (Value Document)

/-! ## Writing -/

/-- A natural number as JSON. -/
def nat (n : Nat) : Value :=
  .int n

/-- Natural numbers as JSON. -/
def nats (ns : List Nat) : Value :=
  .array (ns.map nat)

/-- A value that may be missing as JSON. -/
def optional {α : Type} (value : α → Value) : Option α → Value
  | some a => value a
  | none => .null

/-- A point as JSON. -/
def Point.value (p : Point) : Value :=
  .object [("point", nat p.line), ("exits", .array (p.exits.map nats))]

/-- A function as JSON. -/
def functionValue (f : FunctionSpan) : Value :=
  .object [("key", .text f.key), ("line", nat f.line), ("end_line", nat f.endLine),
    ("body_line", optional nat f.bodyLine)]

/-- An entry as JSON. -/
def Record.value (r : Record) : Value :=
  .object
    [("mtime", optional (fun t => .array [.int t.1, nat t.2]) r.modified),
      ("checksum", optional .text r.digest),
      ("lines", nats r.lines),
      ("branches", .array (r.points.map Point.value)),
      ("functions", .array (r.functions.map functionValue))]

/-- The records of some entries, by identity. -/
def recordsOf (entries : List (Revision × SiteMap)) : List (String × Record) :=
  Keyed.ofList (entries.map fun e => (e.1.id.text, Record.of e.1.freshness e.2))

/-- The text of a bundle. -/
def encode (entries : List (Revision × SiteMap)) : List Char :=
  (Value.object ((recordsOf entries).map fun e => (e.1, e.2.value))).render

/-! ## Reading -/

/-- A point from JSON. -/
def readPoint : Reader Point := fun d => do
  match ← Reader.fields ["point", "exits"] d with
  | [line, exits] =>
    return ⟨← Reader.required Reader.nat32 line,
      ← Reader.required (Reader.list (Reader.list Reader.nat32)) exits⟩
  | _ => none

/-- A function from JSON. -/
def readFunction : Reader FunctionSpan := fun d => do
  match ← Reader.fields ["key", "line", "end_line", "body_line"] d with
  | [key, line, endLine, bodyLine] =>
    return ⟨← Reader.required Reader.text key, ← Reader.required Reader.nat32 line,
      ← Reader.required Reader.nat32 endLine, ← Reader.lenient Reader.nat32 bodyLine⟩
  | _ => none

/-- An entry from JSON. -/
def readRecord : Reader Record := fun d => do
  match ← Reader.fields ["mtime", "checksum", "lines", "branches", "functions"] d with
  | [modified, digest, lines, points, functions] =>
    return ⟨← Reader.lenient (Reader.pair Reader.int64 Reader.nat32) modified,
      ← Reader.lenient Reader.text digest,
      ← Reader.required (Reader.list Reader.nat32) lines,
      ← Reader.required (Reader.list readPoint) points,
      ← Reader.required (Reader.list readFunction) functions⟩
  | _ => none

/-- A member of a bundle: an identity and its entry. -/
def readMember (m : Json.RawText × Document) : Option (String × Record) := do
  return (← m.1.string?, ← readRecord m.2)

/-- The records of a bundle, by identity. -/
def readRecords : Reader (List (String × Record))
  | .object members =>
    (members.mapM readMember).map Keyed.ofList
  | _ => none

/-- An entry from its key and its record. -/
def entryOf (key : String) (r : Record) : Except Fault (Revision × SiteMap) :=
  match SourceId.ofText? key with
  | none => .error (.missing key)
  | some id => do
    let freshness ← r.freshness key
    return (⟨id, freshness⟩, r.map)

/-- The entries of some records, or the first fault among them. -/
def entriesOf (records : List (String × Record)) : Except Fault (List (Revision × SiteMap)) :=
  records.mapM fun e => entryOf e.1 e.2

/-- The entries of a bundle in order of identity. -/
def decode (bytes : Bytes) : Except Fault (List (Revision × SiteMap)) :=
  match (Document.ofChars? (Text.Utf8.decode bytes)).bind readRecords with
  | none => .error .malformedBundle
  | some records => entriesOf records

end Coverage.Bundle
