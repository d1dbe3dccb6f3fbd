/-
  Coverage.Cache.Database

  The files of the database in the working directory, and how a cache is connected to it.

  Beside the database file stand a log of changes and an index of that log while someone is
  connected; a journal is found there only if somebody else wrote one. Anyone may write,
  delete or replace these files at any time. What is opened is the store in the log, if all
  of it is there, or else the store in the database file; an absent or blank file becomes a
  new database. Who cannot open it uses a store in memory.
-/

import Coverage.Cache.Basic
import Coverage.Workspace

namespace Coverage.Cache

/-- The name of the database file. -/
def fileName : String := "cache.db"

/-- The name of the log. -/
def logName : String := "cache.db-wal"

/-- The name of the index of the log. -/
def indexName : String := "cache.db-shm"

/-- The name of a journal. -/
def journalName : String := "cache.db-journal"

namespace Database

/-! ## What is found -/

/-- Whether there is a file that is not empty. -/
def hasContent (w : Workspace) (name : String) : Bool :=
  (w.content? name).any (· ≠ .plain [])

/-- Whether a file holds plain bytes. -/
def isPlain (w : Workspace) (name : String) : Bool :=
  match w.content? name with
  | some (.plain _) => true
  | _ => false

/-- Whether a database may be made in the database file. -/
def isBlank (w : Workspace) : Bool :=
  (w.content? fileName).any Content.isBlank

/-- Whether the database file holds a database. -/
def isDatabase (w : Workspace) : Bool :=
  match w.content? fileName with
  | some (.database _) => true
  | _ => false

/-- Whether there is a journal that asks to be played back. Its first byte says so. -/
def hasJournal (w : Workspace) : Bool :=
  (w.content? journalName).any fun content => content.bytes.head?.any (· ≠ 0)

/-- Whether a directory stands where a connection needs a file or nothing. -/
def isObstructed (w : Workspace) : Bool :=
  w.hasDirectory fileName || w.hasDirectory logName || w.hasDirectory journalName

/-- The store that is found, with the extent of its log; there is no store in a database
    without tables. The log has more recent content than the file. -/
def found? (w : Workspace) : Option (Option Store × LogExtent) :=
  match w.content? logName, w.content? fileName with
  | some (.log s), _ => some (some s, .everything)
  | _, some (.database s) => some (s, .nothing)
  | _, _ => none

/-! ## What is changed -/

/-- A file, made empty if it is not there. -/
def ensureFile (w : Workspace) (name : String) : Workspace :=
  if (w.content? name).isSome then w else w.setContent name (.plain [])

/-- Removes a file. A directory of its name stays. -/
def dropFile (w : Workspace) (name : String) : Workspace :=
  if (w.content? name).isSome then w.delete name else w

/-- Removes a file unless it is empty. -/
def dropContent (w : Workspace) (name : String) : Workspace :=
  if hasContent w name then w.delete name else w

/-- Removes a log from which nothing can be read, with its index. -/
def discardLog (w : Workspace) : Workspace :=
  if hasContent w logName && !w.hasDirectory indexName then
    dropFile (w.delete logName) indexName
  else w

/-- Makes a database without tables, in place of any journal. -/
def make (w : Workspace) : Workspace :=
  (dropFile w journalName).setContent fileName (.database none)

/-- What is there when the database is about to be read: a file of its name, and no journal
    to play back. A blank file has no use for a journal or a log, and becomes a database if
    nothing is in the way. -/
def prepare (w : Workspace) : Workspace :=
  let w := ensureFile w fileName
  if isBlank w then
    let w := dropContent (dropContent w journalName) logName
    if isObstructed w then w else make w
  else if hasJournal w then w.delete journalName
  else w

end Database

/-! ## Connecting -/

namespace Connection

open Database

/-- A connection to a store with tables, which are brought to the version of this library. -/
def ofStore (s : Store) (log : LogExtent) : Connection :=
  { store := s.opened, log := if s.version = some tableVersion then log else log.grown }

/-- A connection to what was found. To make tables or to change their version takes an index
    that can be written; other tables can be read without it. -/
def ofFound? (found : Option Store) (log : LogExtent) (writable : Bool) : Option Connection :=
  match found with
  | none => if writable then some { store := .empty, log := .everything } else none
  | some s =>
    if writable then some (ofStore s log)
    else if s.version = some tableVersion then some { store := s, log, writable := false }
    else none

/-- The log and its index while they are in use. -/
def occupy (link : Connection) (w : Workspace) : Workspace :=
  let w := if link.log = .nothing then w else w.setContent logName .pages
  w.setContent indexName .pages

/-- Opens the database. A log from which nothing can be read is removed, unless the database
    file can do without it. -/
def open? (w : Workspace) : Option Connection × Workspace :=
  if w.hasDirectory fileName then (none, w)
  else
    let w := prepare w
    if isObstructed w then (none, w)
    else
      match found? w with
      | none => (none, discardLog w)
      | some (found, log) =>
        let w := ensureFile w logName
        match ofFound? found log (!w.hasDirectory indexName) with
        | none => (none, w)
        | some link => (some link, if link.writable then link.occupy w else w)

/-- Whether the log in use was overwritten, so that it holds nothing any more. -/
def isLost (link : Connection) (w : Workspace) : Bool :=
  link.log = .everything && isPlain w logName

/-- The database file after all that is in the log was brought home. -/
def checkpoint (link : Connection) (w : Workspace) : Workspace :=
  match link.log with
  | .nothing => w
  | .changes =>
    w.setContent fileName (if isDatabase w then .database (some link.store) else .pages)
  | .everything => w.setContent fileName (.database (some link.store))

/-- The log as it is found by those who come later. -/
def leaveLog (link : Connection) (w : Workspace) : Workspace :=
  match link.log with
  | .nothing => w
  | .changes => w.setContent logName .pages
  | .everything => w.setContent logName (.log link.store)

/-- Closes a connection. The log is brought home and goes away with its index; if the
    database file is no longer there, the log is left behind. -/
def close (link : Connection) (w : Workspace) : Workspace :=
  if !link.writable || link.isLost w then w
  else if link.attached then dropFile (dropFile (link.checkpoint w) logName) indexName
  else if (w.content? logName).isSome then link.leaveLog w
  else w

/-- Whether someone else can use what a connection has open: nothing is in the way, the log
    is there if there is anything in it, and no part of the store is missing. -/
def isShareable (link : Connection) (w : Workspace) : Bool :=
  !isObstructed w && !hasJournal w && !isBlank w && !link.isLost w
    && (link.log = .nothing || (w.content? logName).isSome)
    && (link.log = .everything || isDatabase w)

end Connection

/-- Connects to the database. If it cannot be opened, an empty store in memory is used. -/
def openFile (w : Workspace) : Cache × Workspace :=
  match Connection.open? w with
  | (some link, w) => (.connected link, w)
  | (none, w) => (.inMemory, w)

/-- Gives up a cache. -/
def close (c : Cache) (w : Workspace) : Workspace :=
  match c with
  | .memory _ => w
  | .connected link => link.close w

/-- Connects to the database again and gives up the old cache. The old connection is still
    there when the new one is made, so what it has open is shared. -/
def reopen (c : Cache) (w : Workspace) : Cache × Workspace :=
  match c with
  | .memory _ => openFile w
  | .connected link =>
    if link.attached && link.writable then
      if link.isShareable w then
        (.connected (.ofStore link.store link.log), Database.ensureFile w logName)
      else (.inMemory, link.close w)
    else openFile (link.close w)

/-! ## From outside -/

/-- A connection after a change of the files. It goes on without the database file; but if
    that was overwritten when nothing had been put into the log, nothing can be read. -/
def Connection.notice (link : Connection) (w : Workspace) : Connection :=
  match w.content? fileName with
  | none => { link with attached := false }
  | some (.database _) => link
  | some _ =>
    if link.attached && link.log = .nothing then { link with readable := false } else link

theorem Connection.store_notice (link : Connection) (w : Workspace) :
    (link.notice w).store = link.store := by
  unfold notice
  split
  · rfl
  · rfl
  · split <;> rfl

/-- A cache in use after a change of the files. -/
def notice (c : Cache) (w : Workspace) : Cache :=
  match c with
  | .memory _ => c
  | .connected link => .connected (link.notice w)

/-- Whatever becomes of the files of a database, the store in use stays what it is. -/
@[simp] theorem store_notice (c : Cache) (w : Workspace) : (c.notice w).store = c.store := by
  cases c with
  | memory s => rfl
  | connected link => exact link.store_notice w

/-- Damages what is in the database, behind the back of a cache in use. -/
def damage (c : Cache) (w : Workspace) (d : Store.Damage) : Cache × Workspace :=
  match c with
  | .connected link =>
    if link.attached && link.readable && link.writable then
      (c.setStore (link.store.damage d), w)
    else (c, w)
  | .memory _ =>
    match w.content? fileName with
    | some (.database (some s)) => (c, w.setContent fileName (.database (some (s.damage d))))
    | _ => (c, w)

end Coverage.Cache
