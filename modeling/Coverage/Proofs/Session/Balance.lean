/-
  Coverage.Proofs.Session.Balance

  The statistics of a session account for every registration.

  What one registration adds is in balance with the number of files it admits, whichever way it
  ends (`gains_register`), and sums of what is in balance are in balance (`Balance.plus`).  So
  is what any course adds (`gains_course`), of whatever length and with whatever caches; and
  since it is added, nothing is ever taken away.
-/

import Coverage.Proofs.Session.Course

namespace Coverage.Session

namespace Statistics

/-- Statistics that account for a number of files: each was found in the cache or missing
    there, and what was missing did not parse, or was written, or could not be written. -/
structure Balance (d : Statistics) (files : Nat) : Prop where
  served : d.hits + d.misses = files + d.parseFailures
  failed : d.parseFailures ≤ d.misses
  written : d.writes ≤ d.misses - d.parseFailures
  unwritten : d.misses - d.parseFailures ≤ d.writes + d.errors
  errors : d.errors ≤ 2 * d.misses

/-- No counter is above that of other statistics. -/
structure AtMost (a b : Statistics) : Prop where
  hits : a.hits ≤ b.hits
  misses : a.misses ≤ b.misses
  writes : a.writes ≤ b.writes
  errors : a.errors ≤ b.errors
  parseFailures : a.parseFailures ≤ b.parseFailures

variable {d d' : Statistics} {files files' : Nat}

theorem balance_zero : zero.Balance 0 := by
  constructor <;> decide

/-- Balanced statistics add up to balanced ones. -/
theorem Balance.plus (h : d.Balance files) (h' : d'.Balance files') :
    (d.plus d').Balance (files + files') := by
  obtain ⟨hserved, hfailed, hwritten, hunwritten, herrors⟩ := h
  obtain ⟨hserved', hfailed', hwritten', hunwritten', herrors'⟩ := h'
  constructor <;> simp only [Statistics.plus] <;> omega

theorem atMost_plus (d d' : Statistics) : d.AtMost (d.plus d') where
  hits := Nat.le_add_right ..
  misses := Nat.le_add_right ..
  writes := Nat.le_add_right ..
  errors := Nat.le_add_right ..
  parseFailures := Nat.le_add_right ..

end Statistics

open Statistics (Balance zero)

variable {s t u : Session}

/-- From one session to another, what is added to the statistics is in balance with the files
    that were admitted. -/
def Gains (s t : Session) : Prop :=
  ∃ d files, d.Balance files ∧ t.stats = s.stats.plus d ∧ t.files.length = s.files.length + files

theorem Gains.trans (h : s.Gains t) (h' : t.Gains u) : s.Gains u := by
  obtain ⟨d, files, hbalance, hstats, hfiles⟩ := h
  obtain ⟨d', files', hbalance', hstats', hfiles'⟩ := h'
  refine ⟨d.plus d', files + files', hbalance.plus hbalance', ?_, ?_⟩
  · rw [hstats', hstats, Statistics.plus_assoc]
  · rw [hfiles', hfiles, Nat.add_assoc]

/-- A session that only counted gains nothing. -/
theorem gains_of_same (hstats : t.stats = s.stats) (hfiles : t.files.length = s.files.length) :
    s.Gains t :=
  ⟨zero, 0, Statistics.balance_zero, hstats, hfiles⟩

/-- A map that is offered to the cache is written, or that is an error. -/
theorem stats_saveMap (s : Session) (r : Revision) (m : SiteMap) :
    ∃ writes errors, writes + errors = 1
      ∧ (s.saveMap r m).stats = s.stats.plus ⟨0, 0, writes, errors, 0⟩ := by
  unfold saveMap
  split
  · exact ⟨1, 0, rfl, rfl⟩
  · exact ⟨0, 1, rfl, rfl⟩

/-- One look-up makes at most one read error. -/
theorem readErrors_le (s : Session) (r : Revision) : s.readErrors r ≤ 1 := by
  unfold readErrors
  split
  · exact Nat.zero_le 1
  · exact Nat.le_refl 1

/-- A registration adds what is in balance, in each of the ways it may end. -/
theorem gains_register (e : Surroundings) (s : Session) (id : SourceId) :
    s.Gains (s.register e id).2 := by
  have houtcome := outcome_register e s id
  generalize s.register e id = found at houtcome ⊢
  obtain ⟨result, t⟩ := found
  -- One case for each way a registration can end: nothing gained, a hit, or a miss with what came
  -- of it.
  cases houtcome with
  | known hindex => exact gains_of_same rfl rfl
  | untracked hindex htracks => exact gains_of_same rfl rfl
  | absent hnew hcontent => exact gains_of_same rfl rfl
  | served hnew hcontent hload =>
    exact ⟨⟨1, 0, 0, 0, 0⟩, 1, by constructor <;> decide, rfl, List.length_append⟩
  | @misparsed r bytes why hnew hcontent hload hparse =>
    have hread := s.readErrors_le r
    refine ⟨⟨0, 1, 0, s.readErrors r, 1⟩, 0, ?_, rfl, rfl⟩
    constructor <;> dsimp only <;> omega
  | @parsed r bytes p hnew hcontent hload hparse =>
    have hread := s.readErrors_le r
    obtain ⟨writes, errors, hone, hstats⟩ := (s.unserved r).stats_saveMap r (.ofProgram p)
    refine ⟨⟨0, 1, writes, s.readErrors r + errors, 0⟩, 1, ?_, ?_, ?_⟩
    · constructor <;> dsimp only <;> omega
    · refine hstats.trans ((Statistics.plus_assoc ..).trans ?_)
      simp only [Statistics.plus, Nat.zero_add, Nat.add_zero]
    · show (((s.unserved r).saveMap r _).files ++ _).length = _
      rw [files_saveMap]
      exact List.length_append

/-- Whatever a session meets, what is added is in balance. -/
theorem gains_course (s : Session) (os : List Occurrence) : s.Gains (s.course os) := by
  refine course_induct (P := fun t => s.Gains t) ?_ ?_ ?_ ?_ os (gains_of_same rfl rfl)
  · exact fun e t id h => h.trans (gains_register e t id)
  · exact fun t p h => h.trans (gains_of_same rfl rfl)
  · exact fun t n c h => h.trans (gains_of_same rfl (List.length_modify ..))
  · exact fun t c h => h.trans (gains_of_same rfl rfl)

/-- Along a course the statistics balance with the files that are tracked. -/
theorem balance_course (settings : Settings) (cache : Cache) (os : List Occurrence) :
    ((start settings cache).course os).stats.Balance
      ((start settings cache).course os).files.length := by
  obtain ⟨d, files, hbalance, hstats, hfiles⟩ := gains_course (start settings cache) os
  have hd : ((start settings cache).course os).stats = d := by
    rw [hstats]
    simp only [start, Statistics.plus, Nat.zero_add]
  rw [hd, hfiles]
  exact (Nat.zero_add files).symm ▸ hbalance

/-- Whatever a session meets, its statistics account for its files, and no counter goes down;
    the same holds of the session that a host runs. -/
theorem stats_accounted (settings : Settings) (cache : Cache) (os : List Occurrence) :
    ((start settings cache).course os).stats.Balance
        ((start settings cache).course os).files.length
      ∧ (∀ more, ((start settings cache).course os).stats.AtMost
        ((start settings cache).course (os ++ more)).stats)
      ∧ ∀ (e : Surroundings) (steps : List Host.Step), (∀ x ∈ steps, x.restarts = false) →
        (Host.run ⟨e, .start settings cache⟩ steps).session.stats.Balance
          (Host.run ⟨e, .start settings cache⟩ steps).session.files.length := by
  refine ⟨balance_course settings cache os, fun more => ?_, fun e steps hsteps => ?_⟩
  · rw [course_append]
    obtain ⟨d, files, -, hstats, -⟩ := gains_course ((start settings cache).course os) more
    rw [hstats]
    exact Statistics.atMost_plus ..
  · obtain ⟨os, hos⟩ := Host.exists_course (h := ⟨e, .start settings cache⟩) hsteps
    rw [hos]
    exact balance_course settings cache os

/-- A cache in which the token of one script is lost, and that refuses all maps. -/
def troubled : Cache :=
  .memory <| (((Cache.Store.empty.save ⟨.file "/a.js", .modified 0 5⟩ ⟨[], [], []⟩).toOption.getD
    .empty).damage (.token .noToken none)).damage .refuse

/-- One source is not there when it is met first, and then it is. -/
def writtenLate : List Host.Step :=
  [.ask (.onLine (.file "b.js") 1), .ask (.onLine (.file "/a.js") 1), .writeFile "b.js" [32] 0,
    .ask (.register (.file "b.js")), .ask (.onLine (.file "b.js") 1)]

/-- Three errors of the cache are counted, and both scripts are tracked. -/
theorem stats_accounted_troubled :
    (Host.run ⟨Host.oneScript, .start ⟨[], none⟩ troubled⟩ writtenLate).session.stats
        = ⟨0, 2, 0, 3, 0⟩
      ∧ Statistics.Balance ⟨0, 2, 0, 3, 0⟩ 2 := by
  obtain ⟨-, -, hhost⟩ := stats_accounted ⟨[], none⟩ troubled []
  have hbalance := hhost Host.oneScript writtenLate (by decide)
  have hstats : (Host.run ⟨Host.oneScript, .start ⟨[], none⟩ troubled⟩ writtenLate).session.stats
      = ⟨0, 2, 0, 3, 0⟩ := by decide +kernel
  have hfiles : (Host.run ⟨Host.oneScript, .start ⟨[], none⟩ troubled⟩
      writtenLate).session.files.length = 2 := by decide +kernel
  rw [hstats, hfiles] at hbalance
  exact ⟨hstats, hbalance⟩

end Coverage.Session
