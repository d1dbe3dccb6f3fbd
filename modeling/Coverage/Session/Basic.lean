/-
  Coverage.Session.Basic

  A session: the files it tracks, what has been counted in them, and the cache that saves
  parsing them again.

  A file is registered once and keeps the revision, the bytes and the site map it had then.
  A file that cannot be read or parsed is left out and disturbs no other; a cache that
  cannot be read or written is passed over. Callbacks of the engine register a file on its
  first event, and try that only once.
-/

import Coverage.Cache.Basic
import Coverage.Hits.Ledger
import Coverage.Session.Surroundings
import Coverage.SiteMap.Survey

namespace Coverage

/-- A file that is tracked. -/
structure CoveredFile where
  revision : Revision
  /-- The text the engine was given. -/
  source : String
  bytes : Bytes
  ledger : Ledger

/-- How the cache was used, and how many scripts did not parse. -/
structure Session.Statistics where
  hits : Nat
  misses : Nat
  writes : Nat
  /-- Reads or writes of the cache that failed. -/
  errors : Nat
  parseFailures : Nat
  deriving DecidableEq, Repr, Inhabited

/-- What stays the same during a session. -/
structure Session.Settings where
  /-- A source is tracked if its text begins with one of these, or if there are none. -/
  pathSet : List String
  /-- Where the report goes at the end. -/
  outputDir : Option String

/-- A session. -/
structure Session where
  settings : Session.Settings
  /-- In the order in which they were registered. -/
  files : List CoveredFile
  /-- Sources whose registration by a callback failed. -/
  failed : List SourceId.Place
  stats : Session.Statistics
  cache : Cache

namespace Session

/-- A session that tracks no file yet. -/
def start (settings : Session.Settings) (cache : Cache) : Session :=
  ⟨settings, [], [], ⟨0, 0, 0, 0, 0⟩, cache⟩

/-- Whether a source is in the set of tracked paths. -/
def tracks (s : Session) (id : SourceId) : Bool :=
  s.settings.pathSet.isEmpty
    || s.settings.pathSet.any fun p => p.toList.isPrefixOf id.text.toList

/-- The number of the file that is registered for a source. -/
def fileIndex? (s : Session) (id : SourceId) : Option Nat :=
  s.files.findIdx? fun f => f.revision.id.place = id.place

/-! ## Registration -/

/-- Saves a map in the cache, and counts whether that worked. -/
def saveMap (s : Session) (r : Revision) (m : SiteMap) : Session :=
  match s.cache.save r m with
  | .ok cache =>
    { s with
      cache := cache
      stats := { s.stats with writes := s.stats.writes + 1 } }
  | .error _ => { s with stats := { s.stats with errors := s.stats.errors + 1 } }

/-- Parses a source that the cache does not know, and saves its map. -/
def survey (engine : Engine) (s : Session) (r : Revision) (source : String) :
    Except Fault SiteMap × Session :=
  match engine source r.id.text with
  | .error fault =>
    (.error (.misparsed fault),
      { s with stats := { s.stats with parseFailures := s.stats.parseFailures + 1 } })
  | .ok program =>
    let m := SiteMap.ofProgram program
    (.ok m, s.saveMap r m)

/-- Counts a registration that the cache could not serve. -/
def missed (s : Session) : Session :=
  { s with stats := { s.stats with misses := s.stats.misses + 1 } }

/-- The map of a revision, from the cache or else from its source. -/
def mapOf (engine : Engine) (s : Session) (r : Revision) (source : String) :
    Except Fault SiteMap × Session :=
  match s.cache.load r with
  | .ok (some m) => (.ok m, { s with stats := { s.stats with hits := s.stats.hits + 1 } })
  | .ok none => survey engine s.missed r source
  | .error _ =>
    -- An entry that cannot be read counts as a miss and as an error.
    survey engine { s.missed with stats := { s.missed.stats with errors := s.stats.errors + 1 } }
      r source

/-- Adds a file with nothing counted yet. -/
def addFile (s : Session) (r : Revision) (source : String) (bytes : Bytes) (m : SiteMap) :
    Session :=
  { s with files := s.files ++ [⟨r, source, bytes, .ofMap m⟩] }

/-- Registers a source and gives the number of its file. A source that is registered
    already keeps its number. -/
def register (e : Surroundings) (s : Session) (id : SourceId) : Except Fault Nat × Session :=
  match s.fileIndex? id with
  | some n => (.ok n, s)
  | none =>
    if !s.tracks id then (.error (.untracked id.text), s)
    else
      match e.content id with
      | .error fault => (.error fault, s)
      | .ok (r, bytes) =>
        -- The engine gets text in any case; the bytes are kept for the snapshot.
        let source := Text.Utf8.lossy bytes
        match s.mapOf e.engine r source with
        | (.error fault, s) => (.error fault, s)
        | (.ok m, s) => (.ok s.files.length, s.addFile r source bytes m)

/-! ## Counting -/

/-- Changes the ledger of a file. -/
def updateLedger (s : Session) (n : Nat) (f : Ledger → Ledger) : Session :=
  { s with files := s.files.modify n fun t => { t with ledger := f t.ledger } }

/-- Counts a line that ran in a file, if there is that file. -/
def countLine (s : Session) (n line : Nat) : Session :=
  s.updateLedger n (·.recordLine line)

/-- Counts an exit that was taken in a file, if there is that file. -/
def countExit (s : Session) (n line index : Nat) : Session :=
  s.updateLedger n (·.recordExit line index)

/-- Counts a call of a function by key, and says whether there is that function. -/
def countCall (s : Session) (n : Nat) (key : String) : Bool × Session :=
  ((s.files[n]?).any fun t => (t.ledger.recordCall key).1,
    s.updateLedger n fun l => (l.recordCall key).2)

/-- Counts a call of the function that was entered at a line, and gives its key. -/
def countEntry (s : Session) (n : Nat) (name : Option String) (line : Nat) :
    Option String × Session :=
  ((s.files[n]?).bind fun t => (t.ledger.recordEntry name line).1,
    s.updateLedger n fun l => (l.recordEntry name line).2)

/-! ## Callbacks -/

/-- The number of the file of a source, which is registered now if it is its turn: it is
    tracked and has not failed before. -/
def ensure (e : Surroundings) (s : Session) (id : SourceId) : Option Nat × Session :=
  match s.fileIndex? id with
  | some n => (some n, s)
  | none =>
    if s.failed.contains id.place || !s.tracks id then (none, s)
    else
      match s.register e id with
      | (.ok n, s) => (some n, s)
      | (.error _, s) => (none, { s with failed := id.place :: s.failed })

/-- The engine is about to run a line. -/
def onLine (e : Surroundings) (s : Session) (id : SourceId) (line : Nat) : Session :=
  match s.ensure e id with
  | (some n, s) => s.countLine n line
  | (none, s) => s

/-- The engine has entered a function. -/
def onEntry (e : Surroundings) (s : Session) (id : SourceId) (name : Option String)
    (line : Nat) : Session :=
  match s.ensure e id with
  | (some n, s) => (s.countEntry n name line).2
  | (none, s) => s

/-! ## Results -/

/-- How often a line ran in a file. -/
def lineHits? (s : Session) (n line : Nat) : Option Nat :=
  (s.files[n]?).map fun t => t.ledger.lineHits line

/-- The maps of all files as the text of a bundle. -/
def exportBundle (s : Session) : List Char :=
  Bundle.encode (s.files.map fun t => (t.revision, t.ledger.map))

end Session
end Coverage
