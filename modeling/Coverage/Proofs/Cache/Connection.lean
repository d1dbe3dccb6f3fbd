/-
  Coverage.Proofs.Cache.Connection

  Opening the database again gives back the store that was in it.

  A connection is settled if nothing stands in the way of its files: whoever opens the
  database beside it shares its store, and whoever opens it after it was closed finds that
  store brought home to the database file.  Changes of the store keep a connection settled,
  and so does opening the database anew.
-/

import Coverage.Cache.Database
import Coverage.Proofs.Cache.Answers
import Coverage.Proofs.Workspace.Names

namespace Coverage.Cache

open Workspace (IsName)

/-! ## The names of the files -/

theorem isName_fileName : IsName fileName := by
  constructor <;> decide

theorem isName_logName : IsName logName := by
  constructor <;> decide

theorem isName_indexName : IsName indexName := by
  constructor <;> decide

theorem isName_journalName : IsName journalName := by
  constructor <;> decide

namespace Database

variable {w : Workspace} {name : String}

/-! ## Files that nobody is in the way of -/

/-- The files that a connection makes, changes and removes. -/
def ownNames : List String := [fileName, logName, indexName]

theorem fileName_mem : fileName ∈ ownNames :=
  List.mem_cons_self

theorem logName_mem : logName ∈ ownNames :=
  List.mem_cons_of_mem _ List.mem_cons_self

theorem indexName_mem : indexName ∈ ownNames :=
  List.mem_cons_of_mem _ (List.mem_cons_of_mem _ List.mem_cons_self)

theorem fileName_ne_indexName : fileName ≠ indexName := by
  decide

theorem fileName_ne_logName : fileName ≠ logName := by
  decide

theorem logName_ne_indexName : logName ≠ indexName := by
  decide

/-- No directory and no journal is in the way of a connection. -/
structure Clear (w : Workspace) : Prop where
  journal : w.hasDirectory journalName = false
  calm : hasJournal w = false
  own : ∀ name ∈ ownNames, w.hasDirectory name = false

/-- The files of a connection stand in the working directory itself. -/
theorem isName_of_mem (h : name ∈ ownNames) : IsName name := by
  simp only [ownNames, List.mem_cons, List.not_mem_nil, or_false] at h
  rcases h with rfl | rfl | rfl
  · exact isName_fileName
  · exact isName_logName
  · exact isName_indexName

/-- The journal is none of the files that a connection makes. -/
theorem journalName_ne (h : name ∈ ownNames) : journalName ≠ name := by
  rintro rfl
  revert h
  decide

/-- Where nothing is in the way, the files can be made. -/
theorem Clear.not_isObstructed (h : Clear w) : isObstructed w = false := by
  rw [isObstructed, h.own fileName fileName_mem, h.own logName logName_mem, h.journal]
  rfl

/-- Writing one of its files puts nothing in the way of a connection. -/
theorem Clear.setContent (h : Clear w) (hname : name ∈ ownNames) (content : Content) :
    Clear (w.setContent name content) where
  journal := by
    rw [Workspace.hasDirectory_setContent (isName_of_mem hname) isName_journalName]
    exact h.journal
  calm := by
    rw [hasJournal, Workspace.content?_setContent_of_ne (isName_of_mem hname)
      isName_journalName (journalName_ne hname)]
    exact h.calm
  own := fun other hother => by
    rw [Workspace.hasDirectory_setContent (isName_of_mem hname) (isName_of_mem hother)]
    exact h.own other hother

/-- Making one of its files puts nothing in the way either. -/
theorem Clear.ensureFile (h : Clear w) (hname : name ∈ ownNames) :
    Clear (ensureFile w name) := by
  unfold Database.ensureFile
  split
  · exact h
  · exact h.setContent hname _

/-- Nor does removing one. -/
theorem Clear.dropFile (h : Clear w) (hname : name ∈ ownNames) : Clear (dropFile w name) := by
  unfold Database.dropFile
  split
  · rename_i hitem
    refine ⟨?_, ?_, fun other hother => ?_⟩
    · rw [Workspace.hasDirectory_delete (isName_of_mem hname) isName_journalName hitem]
      exact h.journal
    · rw [hasJournal, Workspace.content?_delete_of_ne (isName_of_mem hname)
        isName_journalName hitem (journalName_ne hname)]
      exact h.calm
    · rw [Workspace.hasDirectory_delete (isName_of_mem hname) (isName_of_mem hother) hitem]
      exact h.own other hother
  · exact h

/-- A file that was dropped is not there. -/
theorem content?_dropFile_self (h : IsName name) : (dropFile w name).content? name = none := by
  unfold Database.dropFile
  split
  · exact Workspace.content?_delete_self h ‹_›
  · exact Option.not_isSome_iff_eq_none.1 ‹_›

theorem content?_dropFile_of_ne {other : String} (h : IsName name) (h' : IsName other)
    (hne : other ≠ name) : (dropFile w name).content? other = w.content? other := by
  unfold Database.dropFile
  split
  · exact Workspace.content?_delete_of_ne h h' ‹_› hne
  · rfl

/-- A file that is there is not made again. -/
theorem ensureFile_of_isSome (h : (w.content? name).isSome) : Database.ensureFile w name = w :=
  if_pos h

/-- A file is there after it was made, unless a directory is in its place. -/
theorem isSome_ensureFile (h : IsName name) (hfree : w.hasDirectory name = false) :
    ((Database.ensureFile w name).content? name).isSome := by
  unfold Database.ensureFile
  split
  · assumption
  · rw [Workspace.content?_setContent_self h hfree]
    rfl

theorem content?_ensureFile_of_ne {other : String} (h : IsName name) (h' : IsName other)
    (hne : other ≠ name) : (Database.ensureFile w name).content? other = w.content? other := by
  unfold Database.ensureFile
  split
  · rfl
  · exact Workspace.content?_setContent_of_ne h h' hne

/-- A file that holds a database is one, and is not blank. -/
theorem isDatabase_of_content? {s : Option Store} (h : w.content? fileName = some (.database s)) :
    isDatabase w = true ∧ isBlank w = false := by
  rw [isDatabase, isBlank, h]
  exact ⟨rfl, rfl⟩

/-- A database that is there needs no preparation. -/
theorem prepare_eq (h : Clear w) {s : Option Store}
    (hfile : w.content? fileName = some (.database s)) : prepare w = w := by
  unfold prepare
  simp only
  rw [ensureFile_of_isSome (by rw [hfile]; rfl), (isDatabase_of_content? hfile).2, h.calm]
  rfl

/-- None of the files of a database is there, and nothing is in the way of making them. -/
structure Vacant (w : Workspace) : Prop where
  clear : Clear w
  file : w.content? fileName = none
  log : w.content? logName = none
  journal : w.content? journalName = none

/-- In an empty working directory there is no database, wherever that directory is. -/
theorem vacant_empty (clock : Int) (base : List String) :
    Vacant (Workspace.empty clock base) where
  clear := ⟨isName_journalName.hasDirectory_eq _, by
    rw [hasJournal, isName_journalName.content?_eq]
    rfl, fun _ hname => (isName_of_mem hname).hasDirectory_eq _⟩
  file := isName_fileName.content?_eq _
  log := isName_logName.content?_eq _
  journal := isName_journalName.content?_eq _

/-- Where there is no database, one without tables is made. -/
theorem prepare_vacant (h : Vacant w) :
    Clear (prepare w) ∧ (prepare w).content? fileName = some (.database none)
      ∧ (prepare w).content? logName = none := by
  -- The file is made empty first, and tables are made in an empty file.
  let made := w.setContent fileName (.plain [])
  have hclear : Clear made := h.clear.setContent fileName_mem _
  have hfree : made.hasDirectory fileName = false := hclear.own fileName fileName_mem
  have hblank : isBlank made = true := by
    rw [isBlank, Workspace.content?_setContent_self isName_fileName
      (h.clear.own fileName fileName_mem)]
    rfl
  have hlog : made.content? logName = none := by
    rw [Workspace.content?_setContent_of_ne isName_fileName isName_logName fileName_ne_logName.symm,
      h.log]
  have hjournal : made.content? journalName = none := by
    rw [Workspace.content?_setContent_of_ne isName_fileName isName_journalName
      (journalName_ne fileName_mem), h.journal]
  have hensured : Database.ensureFile w fileName = made := by
    rw [Database.ensureFile, h.file]
    rfl
  have hprepared : prepare w = made.setContent fileName (.database none) := by
    unfold prepare
    simp only [hensured, hblank, if_true, dropContent, hasContent, hjournal, hlog,
      Option.any_none, Bool.false_eq_true, if_false, hclear.not_isObstructed, make,
      Database.dropFile, Option.isSome_none]
  rw [hprepared]
  refine ⟨hclear.setContent fileName_mem _,
    Workspace.content?_setContent_self isName_fileName hfree, ?_⟩
  rw [Workspace.content?_setContent_of_ne isName_fileName isName_logName fileName_ne_logName.symm]
  exact hlog

end Database

namespace Connection

open Database

variable {link : Connection} {w : Workspace}

/-! ## Connections that can go on -/

/-- The files of the database are those of a connection that can go on. -/
structure Settled (link : Connection) (w : Workspace) : Prop where
  attached : link.attached = true
  readable : link.readable = true
  writable : link.writable = true
  clear : Clear w
  blank : isBlank w = false
  kept : link.isLost w = false
  logged : (w.content? logName).isSome
  database : link.log = .everything ∨ isDatabase w
  -- With nothing in the log, all of the store stands in the database file.
  home : link.log = .nothing → w.content? fileName = some (.database (some link.store))

/-- A change of the store goes to the log. -/
theorem Settled.setStore (h : link.Settled w) (s : Store) :
    Settled { link with store := s, log := link.log.grown } w := by
  have hkept := h.kept
  have hdatabase := h.database
  refine { h with kept := ?_, database := ?_, home := ?_ }
  · rw [isLost] at hkept ⊢
    cases hlog : link.log <;> simp_all [LogExtent.grown]
  · cases hlog : link.log <;> simp_all [LogExtent.grown]
  · -- A log that has grown holds something.
    intro hnothing
    cases hlog : link.log <;> simp [hlog, LogExtent.grown] at hnothing

/-- A database that is in order can be opened a second time. -/
theorem Settled.isShareable (h : link.Settled w) : link.isShareable w = true := by
  have hdatabase := h.database
  rw [Connection.isShareable, h.clear.not_isObstructed, h.clear.calm, h.blank, h.kept, h.logged]
  simpa using hdatabase

/-- Who opens the database while it is in use shares the store, and changes no file. -/
theorem Settled.reopen_eq (h : link.Settled w) (hs : link.store.Undamaged) :
    reopen (.connected link) w = (.connected link, w) := by
  -- The tables are of the right version already, so opening them leaves the log as it is.
  have hsame : ofStore link.store link.log = link := by
    obtain ⟨store, log, attached, readable, writable⟩ := link
    obtain rfl : attached = true := h.attached
    obtain rfl : readable = true := h.readable
    obtain rfl : writable = true := h.writable
    rw [ofStore, hs.opened, if_pos hs.current]
  unfold reopen
  simp only [h.attached, h.writable, h.isShareable, Bool.and_self, if_true, hsame,
    ensureFile_of_isSome h.logged]

/-! ## Closing and opening -/

/-- After a checkpoint the file holds the store of the connection. -/
theorem Settled.content?_checkpoint (h : link.Settled w) :
    (link.checkpoint w).content? fileName = some (.database (some link.store)) := by
  have hfree := h.clear.own fileName fileName_mem
  unfold checkpoint
  cases hlog : link.log with
  | nothing => exact h.home hlog
  | changes =>
    have hdatabase : isDatabase w = true := by
      simpa [hlog] using h.database
    simp only [hdatabase, if_true]
    exact Workspace.content?_setContent_self isName_fileName hfree
  | everything => exact Workspace.content?_setContent_self isName_fileName hfree

/-- A checkpoint puts nothing in the way. -/
theorem Settled.clear_checkpoint (h : link.Settled w) : Clear (link.checkpoint w) := by
  unfold checkpoint
  cases link.log with
  | nothing => exact h.clear
  | changes => exact h.clear.setContent fileName_mem _
  | everything => exact h.clear.setContent fileName_mem _

/-- To close a connection is to write its store back and to drop its log and its index. -/
theorem Settled.close_eq (h : link.Settled w) :
    link.close w = dropFile (dropFile (link.checkpoint w) logName) indexName := by
  unfold close
  simp only [h.writable, h.kept, h.attached, Bool.not_true, Bool.or_self, Bool.false_eq_true,
    if_false, if_true]

/-- A connection that is closed leaves nothing in the way of the next one. -/
theorem Settled.clear_close (h : link.Settled w) : Clear (link.close w) := by
  rw [h.close_eq]
  exact (h.clear_checkpoint.dropFile logName_mem).dropFile indexName_mem

/-- When a connection is closed, its store is brought home. -/
theorem Settled.content?_close (h : link.Settled w) :
    (link.close w).content? fileName = some (.database (some link.store)) := by
  rw [h.close_eq, content?_dropFile_of_ne isName_indexName isName_fileName fileName_ne_indexName,
    content?_dropFile_of_ne isName_logName isName_fileName fileName_ne_logName]
  exact h.content?_checkpoint

/-- A connection that is closed leaves no log. -/
theorem Settled.content?_log_close (h : link.Settled w) :
    (link.close w).content? logName = none := by
  rw [h.close_eq, content?_dropFile_of_ne isName_indexName isName_logName logName_ne_indexName]
  exact content?_dropFile_self isName_logName

/-- A store that is found at home is opened as it is. -/
theorem open?_eq (hclear : Clear w) {s : Store} (hs : s.Undamaged)
    (hfile : w.content? fileName = some (.database (some s)))
    (hlog : w.content? logName = none) :
    open? w = (some { store := s, log := .nothing },
      (ensureFile w logName).setContent indexName .pages) := by
  have hfound : found? w = some (some s, .nothing) := by
    rw [found?, hfile, hlog]
  have hindex : (ensureFile w logName).hasDirectory indexName = false :=
    (hclear.ensureFile logName_mem).own indexName indexName_mem
  unfold open?
  rw [hclear.own fileName fileName_mem, if_neg Bool.false_ne_true]
  simp only [prepare_eq hclear hfile, hclear.not_isObstructed, hfound, hindex]
  simp only [Bool.false_eq_true, if_false, Bool.not_false, ofFound?, if_true, ofStore, hs.opened,
    hs.current, occupy]

/-- A connection to a database with tables begins with its files in order. -/
theorem settled_open? (hclear : Clear w) {s : Store}
    (hfile : w.content? fileName = some (.database (some s))) :
    Settled { store := s, log := .nothing }
      ((ensureFile w logName).setContent indexName .pages) := by
  have hlogged := isSome_ensureFile isName_logName (hclear.own logName logName_mem)
  have hkept : ((ensureFile w logName).setContent indexName .pages).content? fileName
      = some (.database (some s)) := by
    rw [Workspace.content?_setContent_of_ne isName_indexName isName_fileName fileName_ne_indexName,
      content?_ensureFile_of_ne isName_logName isName_fileName fileName_ne_logName]
    exact hfile
  refine ⟨rfl, rfl, rfl, (hclear.ensureFile logName_mem).setContent indexName_mem _,
    (isDatabase_of_content? hkept).2, rfl, ?_, .inr (isDatabase_of_content? hkept).1,
    fun _ => hkept⟩
  rw [Workspace.content?_setContent_of_ne isName_indexName isName_logName logName_ne_indexName]
  exact hlogged

/-- Who opens the database after it was closed finds the store that was in use, and can go
    on with it. -/
theorem Settled.openFile_close (h : link.Settled w) (hs : link.store.Undamaged) :
    ∃ link' w', openFile (link.close w) = (.connected link', w')
      ∧ link'.store = link.store ∧ link'.Settled w' := by
  have hopen := open?_eq h.clear_close hs h.content?_close h.content?_log_close
  refine ⟨{ store := link.store, log := .nothing }, _, ?_, rfl,
    settled_open? h.clear_close h.content?_close⟩
  rw [openFile, hopen]

/-- Where there is no database, an empty one is opened. -/
theorem openFile_vacant (h : Vacant w) :
    ∃ link w', openFile w = (.connected link, w') ∧ link.store = .empty ∧ link.Settled w' := by
  obtain ⟨hclear, hfile, hlog⟩ := prepare_vacant h
  -- The tables are made in the log, which then holds all of the database.
  let logged := ensureFile (prepare w) logName
  let used := (logged.setContent logName .pages).setContent indexName .pages
  have hlogged : Clear logged := hclear.ensureFile logName_mem
  have hpages : used.content? logName = some .pages := by
    rw [Workspace.content?_setContent_of_ne isName_indexName isName_logName logName_ne_indexName,
      Workspace.content?_setContent_self isName_logName (hlogged.own logName logName_mem)]
  have hmade : used.content? fileName = some (.database none) := by
    rw [Workspace.content?_setContent_of_ne isName_indexName isName_fileName fileName_ne_indexName,
      Workspace.content?_setContent_of_ne isName_logName isName_fileName fileName_ne_logName,
      content?_ensureFile_of_ne isName_logName isName_fileName fileName_ne_logName, hfile]
  have hfound : found? (prepare w) = some (none, .nothing) := by
    rw [found?, hfile, hlog]
  have hopen : open? w = (some { store := .empty, log := .everything }, used) := by
    unfold open?
    rw [h.clear.own fileName fileName_mem, if_neg Bool.false_ne_true]
    have hindex : (ensureFile (prepare w) logName).hasDirectory indexName = false :=
      hlogged.own indexName indexName_mem
    simp only [hclear.not_isObstructed, hfound, hindex, Bool.false_eq_true, if_false,
      Bool.not_false, ofFound?, if_true, occupy, reduceCtorEq]
    rfl
  refine ⟨{ store := .empty, log := .everything }, used, ?_, rfl, rfl, rfl, rfl, ?_,
    (isDatabase_of_content? hmade).2, ?_, ?_, .inl rfl, fun hnothing => by cases hnothing⟩
  · rw [openFile, hopen]
  · exact (hlogged.setContent logName_mem _).setContent indexName_mem _
  · rw [isLost, isPlain, hpages]
    rfl
  · rw [hpages]
    rfl

end Connection
end Coverage.Cache
