/-
  Coverage.Cache.Store

  The cache of site maps: at most one for each identity, and only for the content it was
  made of.

  A map is found again if both its identity and its token match. A write that fails leaves
  the store as it was, since it gives no new one; so does a bundle of which any entry
  fails.
-/

import Coverage.Bundle.Codec
import Coverage.Cache.Tables

namespace Coverage.Cache

/-- The version of the tables that this library reads and writes. -/
def tableVersion : Nat := 2

/-- A cache. The version of the tables is stored with them, and may be missing. A store may
    refuse to take entries. -/
structure Store where
  tables : Tables
  refuses : Bool
  version : Option Nat
  deriving DecidableEq, Repr

namespace Store

/-- A store without entries. -/
def empty : Store :=
  ⟨.empty, false, some tableVersion⟩

/-- The store as it is found when it is opened: tables of another version are discarded,
    and a missing version is written again. -/
def opened (s : Store) : Store :=
  match s.version with
  | some v => if v = tableVersion then s else empty
  | none => { s with version := some tableVersion }

/-! ## Single entries -/

/-- The map of a revision, if it is there. -/
def load (s : Store) (r : Revision) : Except Fault (Option SiteMap) :=
  match s.tables.find? r.id.text with
  | none => .ok none
  | some row => do
    let freshness ← Tables.freshness row
    return if freshness = r.freshness then some (s.tables.map row.number) else none

/-- The store with the map of a revision, in place of any map of that identity. -/
def save (s : Store) (r : Revision) (m : SiteMap) : Except Fault Store :=
  if s.refuses then .error .diskFull
  else do
    -- The old entry goes first; if the new one fails, neither change is seen.
    let tables ← (s.tables.remove r.id.text).addEntry r m
    return { s with tables }

/-- Removes the entry of an identity, and says whether there was one. -/
def remove (s : Store) (id : SourceId) : Bool × Store :=
  ((s.tables.find? id.text).isSome, { s with tables := s.tables.remove id.text })

/-- Removes all entries, and says how many there were. -/
def clear (s : Store) : Nat × Store :=
  (s.tables.entries.length, { s with tables := s.tables.removeWhere fun _ => true })

/-- All identities with their tokens, in order of identity. -/
def entries (s : Store) : Except Fault (List (String × Freshness)) :=
  s.tables.ordered.mapM fun row => do return (row.id, ← Tables.freshness row)

/-! ## Bundles -/

/-- One entry for a bundle. -/
def exportEntry (s : Store) (e : String × Freshness) :
    Except Fault (Option (Revision × SiteMap)) :=
  match SourceId.ofText? e.1 with
  | none => .error (.missing e.1)
  | some id =>
    match s.tables.find? e.1 with
    | none => .ok none
    | some row => .ok (some (⟨id, e.2⟩, s.tables.map row.number))

/-- All entries as the text of a bundle. -/
def exportBundle (s : Store) : Except Fault (List Char) := do
  let entries ← s.entries
  let found ← entries.mapM s.exportEntry
  return Bundle.encode (found.filterMap id)

/-- The store with the entries of a bundle, and how many there are. -/
def importBundle (s : Store) (bytes : Bytes) : Except Fault (Nat × Store) := do
  let entries ← Bundle.decode bytes
  let s ← entries.foldlM (fun s e => s.save e.1 e.2) s
  return (entries.length, s)

/-- A store with the entries of a bundle and no others. -/
def ofBundle (bytes : Bytes) : Except Fault Store := do
  return (← empty.importBundle bytes).2

/-! ## Damage -/

/-- What may happen to a store behind the back of those who use it. -/
inductive Damage where
  /-- The token of one entry, or of all. -/
  | token (damage : Tables.TokenDamage) (id : Option String)
  /-- No entry is accepted any more. -/
  | refuse
  /-- The tables become those of another version, unless their version is lost. -/
  | foreignVersion (version : Nat)
  /-- The version is lost. -/
  | noVersion

/-- A damaged store. -/
def damage (s : Store) : Damage → Store
  | .token d id => { s with tables := s.tables.damage d id }
  | .refuse => { s with refuses := true }
  | .foreignVersion v => { s with version := s.version.map fun _ => v }
  | .noVersion => { s with version := none }

end Store
end Coverage.Cache
