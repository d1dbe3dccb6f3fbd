/-
  Coverage.Cache.Basic

  The cache that is in use: a store in memory, or one in a database.

  Who is connected to a database sees one store, however its files share what is in it:
  changes go to a log beside the database file first, and are brought home when the
  connection is closed.
-/

import Coverage.Cache.Store

namespace Coverage

open Cache (Store)

namespace Cache

/-- How much of a database stands in its log. -/
inductive LogExtent where
  | nothing
  /-- What has changed since the log was begun. -/
  | changes
  /-- All of it: the log was begun with the database. -/
  | everything
  deriving DecidableEq, Repr

/-- The extent of a log after one more change. -/
def LogExtent.grown : LogExtent → LogExtent
  | everything => everything
  | _ => changes

/-- A connection to the database. -/
structure Connection where
  store : Store
  log : LogExtent
  /-- Whether the database file is still the one that was opened. -/
  attached : Bool := true
  /-- Whether the files still hold the store. -/
  readable : Bool := true
  /-- Whether the store can be changed. -/
  writable : Bool := true
  deriving DecidableEq, Repr

end Cache

/-- A cache in use. -/
inductive Cache where
  | memory (store : Store)
  | connected (link : Cache.Connection)
  deriving DecidableEq, Repr

namespace Cache

/-- A new cache in memory. -/
def inMemory : Cache :=
  memory .empty

/-- The store in use. -/
def store : Cache → Store
  | memory s => s
  | connected link => link.store

/-- The cache with another content of the store in use. -/
def setStore : Cache → Store → Cache
  | memory _, s => memory s
  | connected link, s => connected { link with store := s, log := link.log.grown }

@[simp] theorem store_setStore (c : Cache) (s : Store) : (c.setStore s).store = s := by
  cases c <;> rfl

/-- Whether the store in use can be read. -/
def isReadable : Cache → Bool
  | memory _ => true
  | connected link => link.readable

/-- Whether the store in use can be changed. -/
def isWritable : Cache → Bool
  | memory _ => true
  | connected link => link.writable

/-- Asks something of the store in use. -/
def read {α : Type} (c : Cache) (f : Store → Except Fault α) : Except Fault α :=
  if c.isReadable then f c.store else .error .malformedDatabase

/-- Changes the store in use, unless the change fails. -/
def change {α : Type} (c : Cache) (f : Store → Except Fault (α × Store)) :
    Except Fault (α × Cache) :=
  if !c.isReadable then .error .malformedDatabase
  else if !c.isWritable then .error .readOnly
  else do
    let (a, s) ← f c.store
    return (a, c.setStore s)

/-- The map of a revision, if it is there. -/
def load (c : Cache) (r : Revision) : Except Fault (Option SiteMap) :=
  c.read (·.load r)

/-- The cache with the map of a revision, in place of any map of that identity. -/
def save (c : Cache) (r : Revision) (m : SiteMap) : Except Fault Cache := do
  return (← c.change fun s => return ((), ← s.save r m)).2

end Cache
end Coverage
