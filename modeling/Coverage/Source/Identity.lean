/-
  Coverage.Source.Identity

  Where a script lives: in a file, or in an archive of resources under a URI.

  The text of an identity is its key in caches and its name in traces. Two identities are
  the same source if their places are equal, so different spellings of one path are one
  source. `snapshotPath` is where a copy of the source is kept: below a directory of its
  kind, and without any part that could lead out of it.
-/

import Coverage.Source.Path
import Coverage.Text.Cut

namespace Coverage

open Source (Component Path.components Path.compareComponents Path.isRooted Path.names
  Path.parts)

/-- Where a script lives. -/
inductive SourceId where
  | file (path : String)
  | resource (uri : String)
  deriving DecidableEq, Repr

namespace SourceId

/-- How the URI of a resource begins. -/
def scheme : List Char :=
  ['r', 'e', 's', 'o', 'u', 'r', 'c', 'e', ':', '/', '/']

/-- The identity that a text names, unless it is empty. -/
def ofText? (text : String) : Option SourceId :=
  if text = "" then none
  else if scheme.isPrefixOf text.toList then some (.resource text)
  else some (.file text)

/-- The text of an identity. -/
def text : SourceId → String
  | .file path => path
  | .resource uri => uri

/-! ## Sameness and order -/

/-- What identities of one source have in common. -/
inductive Place where
  | file (components : List Component)
  | resource (uri : String)
  deriving DecidableEq, Repr

/-- The place of an identity: a path by its components, a URI as it is written. -/
def place : SourceId → Place
  | .file path => .file (Path.components path)
  | .resource uri => .resource uri

/-- Files come before resources. -/
def compare (a b : SourceId) : Ordering :=
  match a.place, b.place with
  | .file p, .file q => Path.compareComponents p q
  | .file _, .resource _ => .lt
  | .resource _, .file _ => .gt
  | .resource u, .resource v => Ord.compare u v

/-- Whether an identity comes before another, or is the same source. -/
def le (a b : SourceId) : Bool :=
  a.compare b != .gt

/-- Identities in order; those of one source keep theirs. -/
def sort (ids : List SourceId) : List SourceId :=
  ids.mergeSort le

/-! ## Snapshots -/

/-- The parts of a URI that can name something: after the scheme, and neither empty nor a
    step in place or upwards. -/
def resourceNames (uri : String) : List String :=
  let rest := (Text.dropBeginning? scheme uri.toList).getD uri.toList
  (Path.parts (String.ofList rest)).filter fun p => p ≠ "" && p ≠ "." && p ≠ ".."

/-- The parts of the path under which a snapshot is kept, the kind of the source first. -/
def snapshotNames : SourceId → List String
  | .resource uri => "resource" :: resourceNames uri
  | .file path => (if Path.isRooted path then "file" else "relative") :: Path.names path

/-- The path under which a snapshot is kept, inside a directory for snapshots. -/
def snapshotPath (id : SourceId) : String :=
  "/".intercalate id.snapshotNames

end SourceId
end Coverage
