/-
  Coverage.Session.Host

  A program that runs one session after another over the same files and resources, and
  hands the cache of one on to the next.
-/

import Coverage.Cache.Database
import Coverage.Session.Report

namespace Coverage

/-- A program with the session it is running. -/
structure Host where
  surroundings : Surroundings
  session : Session

/-- Where the next session takes its cache from. -/
inductive NextCache where
  /-- The cache of the session that ended. -/
  | kept
  /-- A new one in memory. -/
  | fresh
  /-- The database. -/
  | reopened
  /-- The maps of the files of the session that ended. -/
  | exported
  deriving DecidableEq, Repr

namespace Host

/-- The host with another cache in its session. -/
def setCache (h : Host) (c : Cache) : Host :=
  { h with session := { h.session with cache := c } }

/-- The host with another tree of files, which the cache in use may notice. -/
def setWorkspace (h : Host) (w : Workspace) : Host :=
  { surroundings := { h.surroundings with workspace := w }
    session := { h.session with cache := h.session.cache.notice w } }

/-- The host with another archive. -/
def setArchive (h : Host) (a : Archive) : Host :=
  { h with surroundings := { h.surroundings with archive := a } }

/-! ## From one session to the next -/

/-- The cache for the next session, when the last one ended with a given outcome. If it
    cannot be had, the next session begins with an empty one in memory. To open or to close
    the database changes the tree of files. -/
def nextCache (s : Session) (w : Workspace) (ended : Except Fault Unit) :
    NextCache → Except Fault Unit × Cache × Workspace
  | .kept =>
    match ended with
    | .ok _ => (.ok (), s.cache, w)
    | .error _ => (.ok (), .inMemory, s.cache.close w)
  | .fresh => (.ok (), .inMemory, s.cache.close w)
  | .reopened => (.ok (), s.cache.reopen w)
  | .exported =>
    match Cache.Store.ofBundle (Text.Utf8.encode s.exportBundle) with
    | .ok store => (.ok (), .memory store, s.cache.close w)
    | .error fault => (.error fault, .inMemory, s.cache.close w)

/-- What came of ending a session and starting the next one. -/
structure Restarted where
  /-- How the old session ended. -/
  ended : Except Fault Unit
  /-- The files in the directory for its report, if it had one. -/
  reported : Option (List (String × Bytes))
  /-- Whether the next one got the cache that was asked for. -/
  handedOn : Except Fault Unit
  host : Host

/-- Ends the session and starts the next one. -/
def restart (h : Host) (settings : Session.Settings) (next : NextCache) : Restarted :=
  let finished := h.session.finish h.surroundings.workspace
  let begun := nextCache h.session finished.2 finished.1 next
  { ended := finished.1
    reported := h.session.settings.outputDir.map finished.2.listing
    handedOn := begun.1
    host := { h.setWorkspace begun.2.2 with session := .start settings begun.2.1 } }

end Host
end Coverage
