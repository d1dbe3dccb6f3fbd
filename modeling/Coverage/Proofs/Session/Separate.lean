/-
  Coverage.Proofs.Session.Separate

  Files of one session do not influence each other.

  All files share the list of files, the failed sources, the statistics and the cache.  Yet an
  event of a source reads and writes only what concerns that source: `SameAt p` says that two
  sessions agree in what concerns the place `p`, and a change `Concerns` a place if it does the
  same to all sessions that agree there, and is not seen at any other place.  Changes that
  concern a place can be done one after another (`Concerns.comp`) and can depend on what
  concerns the place (`Concerns.branch`).  The callbacks are put together from there
  (`concerns_take`): which number a file has and what number its entry in the cache gets do
  depend on other files, but nobody looks at these numbers in between.
-/

import Coverage.Proofs.Cache.Alike
import Coverage.Proofs.Session.Invisible

namespace Coverage

open SourceId (Place spelled)
open Text (Utf8.lossy)

namespace Session

/-! ## Statistics -/

namespace Statistics

/-- Statistics after more has been counted. -/
def plus (a d : Statistics) : Statistics :=
  ⟨a.hits + d.hits, a.misses + d.misses, a.writes + d.writes, a.errors + d.errors,
    a.parseFailures + d.parseFailures⟩

/-- What has been counted since. -/
def since (a b : Statistics) : Statistics :=
  ⟨a.hits - b.hits, a.misses - b.misses, a.writes - b.writes, a.errors - b.errors,
    a.parseFailures - b.parseFailures⟩

/-- Nothing. -/
def zero : Statistics :=
  ⟨0, 0, 0, 0, 0⟩

theorem plus_assoc (a d d' : Statistics) : (a.plus d).plus d' = a.plus (d.plus d') := by
  simp only [plus, Nat.add_assoc]

/-- What is counted in two turns does not depend on their order. -/
theorem plus_right_comm (a d d' : Statistics) : (a.plus d).plus d' = (a.plus d').plus d := by
  simp only [plus, Nat.add_right_comm]

/-- What was added is what has been counted since. -/
theorem since_plus (a d : Statistics) : (a.plus d).since a = d := by
  simp only [plus, since, Nat.add_sub_cancel_left]

end Statistics

/-! ## What concerns a place -/

/-- The files of a place. -/
def filesAt (s : Session) (p : Place) : List CoveredFile :=
  s.files.filter fun f => f.revision.id.place = p

/-- Two sessions agree in what concerns a place. -/
structure SameAt (p : Place) (s t : Session) : Prop where
  settings : s.settings = t.settings
  files : s.filesAt p = t.filesAt p
  failed : p ∈ s.failed ↔ p ∈ t.failed
  cache : Cache.Alike (fun key => spelled key = p) s.cache t.cache

variable {p q : Place} {s t s' t' u u' : Session}

/-- A session agrees with itself, if the rows of its cache are in order. -/
theorem sameAt_self (h : s.cache.store.tables.Sound) : SameAt p s s :=
  ⟨rfl, rfl, .rfl, Cache.alike_self h⟩

theorem SameAt.symm (h : SameAt p s t) : SameAt p t s :=
  ⟨h.settings.symm, h.files.symm, h.failed.symm, h.cache.symm⟩

theorem SameAt.trans (h : SameAt p s t) (h' : SameAt p t u) : SameAt p s u :=
  ⟨h.settings.trans h'.settings, h.files.trans h'.files, h.failed.trans h'.failed,
    h.cache.trans h'.cache⟩

/-- What is counted is no concern of any place. -/
theorem SameAt.withStats (h : SameAt p s t) (a b : Statistics) :
    SameAt p { s with stats := a } { t with stats := b } :=
  ⟨h.settings, h.files, h.failed, h.cache⟩

/-- Two sessions have gone on alike: they still agree, and the same has been counted. -/
structure InStep (p : Place) (s t s' t' : Session) : Prop where
  same : SameAt p s' t'
  counted : ∃ d, s'.stats = s.stats.plus d ∧ t'.stats = t.stats.plus d

/-- Sessions that still agree and have counted nothing have gone on alike. -/
theorem InStep.of_stats (h : SameAt p s' t') (hs : s'.stats = s.stats) (ht : t'.stats = t.stats) :
    InStep p s t s' t' :=
  ⟨h, .zero, hs, ht⟩

/-- Going on alike twice is going on alike. -/
theorem InStep.trans (h : InStep p s t s' t') (h' : InStep p s' t' u u') : InStep p s t u u' := by
  obtain ⟨d, hs, ht⟩ := h.counted
  obtain ⟨d', hs', ht'⟩ := h'.counted
  refine ⟨h'.same, d.plus d', ?_, ?_⟩
  · rw [hs', hs, Statistics.plus_assoc]
  · rw [ht', ht, Statistics.plus_assoc]

/-- A change concerns one place: it does the same to all sessions that agree there, and what
    concerns other places is left alone. -/
structure Concerns (p : Place) (change : Session → Session) : Prop where
  own : ∀ s t, SameAt p s t → InStep p s t (change s) (change t)
  frame : ∀ s q, q ≠ p → SameAt q s s → SameAt q s (change s)

/-- What a session is asked is answered from what concerns a place. -/
def Answered {α : Type} (p : Place) (question : Session → α) : Prop :=
  ∀ s t, SameAt p s t → question s = question t

section

variable {change next : Session → Session}

theorem concerns_id (p : Place) : Concerns p fun s => s where
  own := fun _ _ h => .of_stats h rfl rfl
  frame := fun _ _ _ h => h

/-- One change after another. -/
theorem Concerns.comp (h : Concerns p change) (h' : Concerns p next) :
    Concerns p fun s => next (change s) where
  own := fun s t hst => by
    -- After the first change the sessions agree again, so the second does the same to both.
    have hfirst := h.own s t hst
    exact hfirst.trans (h'.own _ _ hfirst.same)
  frame := fun s q hq hs => by
    have hfirst := h.frame s q hq hs
    exact hfirst.trans (h'.frame _ q hq (hfirst.symm.trans hfirst))

/-- A change that depends on an answer. -/
theorem Concerns.branch {α : Type} {question : Session → α} (hquestion : Answered p question)
    {f : α → Session → Session} (h : ∀ a, Concerns p (f a)) :
    Concerns p fun s => f (question s) s where
  own := fun s t hst => by
    -- Both sessions give the same answer, so the same change is done.
    simp only [hquestion s t hst]
    exact (h _).own s t hst
  frame := fun s q hq hs => (h _).frame s q hq hs

end

/-! ## Single changes -/

/-- What is counted in the statistics concerns no place, so it may be said to concern any. -/
theorem concerns_count (p : Place) (d : Statistics) :
    Concerns p fun s => { s with stats := s.stats.plus d } where
  own := fun _ _ h => ⟨h.withStats _ _, d, rfl, rfl⟩
  frame := fun _ _ _ h => h.withStats _ _

/-- Notes that a source could not be registered. -/
def fail (p : Place) (s : Session) : Session :=
  { s with failed := p :: s.failed }

/-- A failure is noted for its place alone. -/
theorem concerns_fail (p : Place) : Concerns p (fail p) where
  own := fun s t h => by
    refine .of_stats ⟨h.settings, h.files, ?_, h.cache⟩ rfl rfl
    show p ∈ p :: s.failed ↔ p ∈ p :: t.failed
    rw [List.mem_cons, List.mem_cons, h.failed]
  frame := fun s q hq h => by
    refine ⟨h.settings, h.files, ?_, h.cache⟩
    show q ∈ s.failed ↔ q ∈ p :: s.failed
    rw [List.mem_cons, or_iff_right hq]

/-- A new file is the last one at its place, and at no other. -/
theorem filesAt_addFile (s : Session) (r : Revision) (source : String) (bytes : Bytes)
    (m : SiteMap) (p : Place) : (s.addFile r source bytes m).filesAt p
      = s.filesAt p ++ if r.id.place = p then [⟨r, source, bytes, .ofMap m⟩] else [] := by
  show (s.files ++ [_]).filter _ = _
  rw [List.filter_append, List.filter_singleton]
  by_cases hp : r.id.place = p
  · simp [filesAt, hp]
  · simp [filesAt, hp]

/-- A new file concerns its place alone. -/
theorem concerns_addFile (r : Revision) (source : String) (bytes : Bytes) (m : SiteMap) :
    Concerns r.id.place fun s => s.addFile r source bytes m where
  own := fun s t h => by
    refine .of_stats ⟨h.settings, ?_, h.failed, h.cache⟩ rfl rfl
    rw [filesAt_addFile, filesAt_addFile, h.files]
  frame := fun s q hq h => by
    refine ⟨h.settings, ?_, h.failed, h.cache⟩
    rw [filesAt_addFile, if_neg fun hc => hq hc.symm, List.append_nil]

/-- A map that is saved under a key is of no concern to places that the key does not lead to. -/
theorem concerns_saveMap (r : Revision) (m : SiteMap) :
    Concerns (spelled r.id.text) fun s => s.saveMap r m where
  own := fun s t h => by
    unfold saveMap
    cases hs : s.cache.save r m with
    | ok c =>
      obtain ⟨d, hd⟩ := h.cache.save_isOk hs
      rw [hd]
      exact ⟨⟨h.settings, h.files, h.failed, h.cache.save hs hd⟩, ⟨0, 0, 1, 0, 0⟩, rfl, rfl⟩
    | error f =>
      cases ht : t.cache.save r m with
      | ok d =>
        -- What one of the caches takes, the other one takes too.
        obtain ⟨c, hc⟩ := h.cache.symm.save_isOk ht
        rw [hs] at hc
        cases hc
      | error f' => exact ⟨h.withStats _ _, ⟨0, 0, 0, 1, 0⟩, rfl, rfl⟩
  frame := fun s q hq h => by
    unfold saveMap
    cases hs : s.cache.save r m with
    | ok c =>
      -- A key leads to one place only.
      refine ⟨h.settings, h.files, h.failed, Cache.alike_save h.cache.sound hs ?_⟩
      exact fun hkey => hq hkey.symm
    | error f => exact h.withStats _ _

/-! ## Registration -/

section

variable (engine : Engine) (r : Revision) (source : String)

/-- A survey writes to the cache under the key of its source, and nowhere else. -/
theorem concerns_survey : Concerns (spelled r.id.text) fun s => (survey engine s r source).2 := by
  unfold survey
  cases engine source r.id.text with
  | error fault => exact concerns_count _ ⟨0, 0, 0, 0, 1⟩
  | ok program => exact concerns_saveMap r _

/-- What a survey finds is up to the engine and the text, whatever the session is. -/
theorem survey_fst (s t : Session) :
    (survey engine s r source).1 = (survey engine t r source).1 := by
  unfold survey
  cases engine source r.id.text with
  | error fault => rfl
  | ok program => rfl

/-- What a session does once it knows what the cache has. -/
def mapOfFound (found : Except Fault (Option SiteMap)) (s : Session) : Session :=
  match found with
  | .ok (some _) => { s with stats := { s.stats with hits := s.stats.hits + 1 } }
  | .ok none => (survey engine s.missed r source).2
  | .error _ =>
    (survey engine { s.missed with stats := { s.missed.stats with errors := s.stats.errors + 1 } }
      r source).2

/-- What is done with an answer of the cache concerns the key that was asked for. -/
theorem concerns_mapOfFound (found : Except Fault (Option SiteMap)) :
    Concerns (spelled r.id.text) (mapOfFound engine r source found) := by
  unfold mapOfFound
  match found with
  | .ok (some m) => exact concerns_count _ ⟨1, 0, 0, 0, 0⟩
  | .ok none => exact (concerns_count _ ⟨0, 1, 0, 0, 0⟩).comp (concerns_survey engine r source)
  | .error fault =>
    exact (concerns_count _ ⟨0, 1, 0, 1, 0⟩).comp (concerns_survey engine r source)

/-- Looking for a map is asking the cache and going on with its answer. -/
theorem mapOf_snd (s : Session) :
    (mapOf engine s r source).2 = mapOfFound engine r source (s.cache.load r) s := by
  unfold mapOf mapOfFound
  match s.cache.load r with
  | .ok (some m) => rfl
  | .ok none => rfl
  | .error fault => rfl

/-- The cache answers a key from what it has under that key. -/
theorem answered_load : Answered (spelled r.id.text) fun s => s.cache.load r :=
  fun _ _ h => h.cache.load_eq rfl

/-- Looking for a map concerns the key of the source. -/
theorem concerns_mapOf : Concerns (spelled r.id.text) fun s => (mapOf engine s r source).2 := by
  simp only [mapOf_snd]
  exact .branch (answered_load r) (concerns_mapOfFound engine r source)

/-- Whether a map is found, and which, is answered from what concerns the key of the source. -/
theorem answered_mapOf : Answered (spelled r.id.text) fun s => (mapOf engine s r source).1 := by
  intro s t h
  have hload : s.cache.load r = t.cache.load r := answered_load r s t h
  simp only [mapOf, hload]
  match t.cache.load r with
  | .ok (some m) => rfl
  | .ok none => exact survey_fst engine r source _ _
  | .error fault => exact survey_fst engine r source _ _

end

/-- What is found at a source has the identity that was asked for. -/
theorem content_id {e : Surroundings} {id : SourceId} {r : Revision} {bytes : Bytes}
    (h : e.content id = .ok (r, bytes)) : r.id = id := by
  unfold Surroundings.content at h
  -- Files and resources are read in different ways, and both keep the identity.
  cases id with
  | file path =>
    simp only at h
    split at h
    · cases h
      rfl
    · cases h
  | resource uri =>
    simp only at h
    split at h
    · cases h
      rfl
    · cases h

/-- Adds the file of a source, if there is a map of it, or notes that there is none. -/
def enroll (id : SourceId) (r : Revision) (bytes : Bytes) (found : Except Fault SiteMap)
    (s : Session) : Session :=
  match found with
  | .ok m => s.addFile r (Utf8.lossy bytes) bytes m
  | .error _ => s.fail id.place

/-- Registers a source on its first event. -/
def attempt (e : Surroundings) (id : SourceId) (s : Session) : Session :=
  match e.content id with
  | .error _ => s.fail id.place
  | .ok (r, bytes) =>
    enroll id r bytes (s.mapOf e.engine r (Utf8.lossy bytes)).1
      (s.mapOf e.engine r (Utf8.lossy bytes)).2

/-- Whether it is the turn of a source to be registered. -/
def isDue (s : Session) (id : SourceId) : Bool :=
  (s.fileIndex? id).isNone && !s.failed.contains id.place && s.tracks id

/-- What a callback does before it counts. -/
def prepare (e : Surroundings) (id : SourceId) (s : Session) : Session :=
  if s.isDue id then s.attempt e id else s

section

variable {e : Surroundings} {id : SourceId} (h : SourceId.ofText? id.text = some id)

include h

/-- To register a source concerns its place, whether it succeeds or fails. -/
theorem concerns_attempt : Concerns id.place (attempt e id) := by
  unfold attempt
  cases hcontent : e.content id with
  | error fault => exact concerns_fail id.place
  | ok found =>
    obtain ⟨r, bytes⟩ := found
    obtain rfl : r.id = id := content_id hcontent
    -- The cache is asked by text, the files by place; for a source that is named by its text
    -- that is the same.
    have hplace : spelled r.id.text = r.id.place := SourceId.spelled_text h
    have hquestion := answered_mapOf e.engine r (Utf8.lossy bytes)
    have hregister := concerns_mapOf e.engine r (Utf8.lossy bytes)
    rw [hplace] at hquestion hregister
    refine .branch (f := fun found s =>
      enroll r.id r bytes found (s.mapOf e.engine r (Utf8.lossy bytes)).2) hquestion fun found => ?_
    cases found with
    | ok m => exact hregister.comp (concerns_addFile r _ bytes m)
    | error fault => exact hregister.comp (concerns_fail r.id.place)

end

/-- A source has no file exactly if there is none at its place. -/
theorem fileIndex?_eq_none {s : Session} {id : SourceId} :
    s.fileIndex? id = none ↔ s.filesAt id.place = [] := by
  rw [fileIndex?, List.findIdx?_eq_none_iff, filesAt, List.filter_eq_nil_iff]
  simp only [decide_eq_false_iff_not, decide_eq_true_eq]

/-- Whether it is the turn of a source is answered from what concerns its place. -/
theorem answered_isDue (id : SourceId) : Answered id.place fun s => s.isDue id := by
  intro s t h
  have hindex : (s.fileIndex? id).isNone = (t.fileIndex? id).isNone := by
    rw [Bool.eq_iff_iff, Option.isNone_iff_eq_none, Option.isNone_iff_eq_none,
      fileIndex?_eq_none, fileIndex?_eq_none, h.files]
  have hfailed : s.failed.contains id.place = t.failed.contains id.place := by
    rw [Bool.eq_iff_iff, List.contains_iff_mem, List.contains_iff_mem, h.failed]
  simp only [isDue, tracks, hindex, hfailed, h.settings]

/-- What a callback does before it counts concerns the place of its source. -/
theorem concerns_prepare {e : Surroundings} {id : SourceId}
    (h : SourceId.ofText? id.text = some id) : Concerns id.place (prepare e id) := by
  refine .branch (f := fun due s => if due then s.attempt e id else s) (answered_isDue id)
    fun due => ?_
  cases due with
  | true => exact concerns_attempt h
  | false => exact concerns_id _

/-! ## Callbacks -/

/-- Changes the ledger of the file of a source, if it has one. -/
def countAt (id : SourceId) (f : Ledger → Ledger) (s : Session) : Session :=
  counted f (s.fileIndex? id, s)

section

variable {α : Type} {pred other : α → Bool} {g : α → α} {l : List α} {n : Nat}

/-- To change the first member of a kind is to change the first of those of that kind. -/
theorem filter_modify_self (hn : l.findIdx? pred = some n) (hg : ∀ a, pred (g a) = pred a) :
    (l.modify n g).filter pred = (l.filter pred).modifyHead g := by
  induction l generalizing n with
  | nil => cases hn
  | cons a rest ih =>
    rw [List.findIdx?_cons] at hn
    by_cases ha : pred a = true
    · rw [if_pos ha] at hn
      cases hn
      rw [List.modify_zero_cons, List.filter_cons_of_pos ((hg a).trans ha),
        List.filter_cons_of_pos ha]
      rfl
    · rw [if_neg ha] at hn
      obtain ⟨k, hk, rfl⟩ := Option.map_eq_some_iff.1 hn
      rw [List.modify_succ_cons, List.filter_cons_of_neg ha, List.filter_cons_of_neg ha, ih hk]

/-- Members of other kinds do not change. -/
theorem filter_modify_other (hn : l.findIdx? pred = some n) (hg : ∀ a, other (g a) = other a)
    (hother : ∀ a, pred a = true → other a = false) :
    (l.modify n g).filter other = l.filter other := by
  induction l generalizing n with
  | nil => cases hn
  | cons a rest ih =>
    rw [List.findIdx?_cons] at hn
    by_cases ha : pred a = true
    · rw [if_pos ha] at hn
      cases hn
      have hkept : ¬other a = true := by simp [hother a ha]
      rw [List.modify_zero_cons, List.filter_cons_of_neg (by rwa [hg a]),
        List.filter_cons_of_neg hkept]
    · rw [if_neg ha] at hn
      obtain ⟨k, hk, rfl⟩ := Option.map_eq_some_iff.1 hn
      rw [List.modify_succ_cons, List.filter_cons, List.filter_cons, ih hk]

end

/-- The first file of a place is the one that is counted in. -/
theorem filesAt_countAt_self (id : SourceId) (f : Ledger → Ledger) (s : Session) :
    (s.countAt id f).filesAt id.place
      = (s.filesAt id.place).modifyHead fun t => { t with ledger := f t.ledger } := by
  unfold countAt
  cases hindex : s.fileIndex? id with
  | none =>
    show s.filesAt id.place = _
    rw [fileIndex?_eq_none.1 hindex]
    rfl
  | some n => exact filter_modify_self hindex fun _ => rfl

/-- Nothing is counted in the files of other places. -/
theorem filesAt_countAt_of_ne {id : SourceId} (f : Ledger → Ledger) (s : Session)
    (hq : q ≠ id.place) : (s.countAt id f).filesAt q = s.filesAt q := by
  unfold countAt
  cases hindex : s.fileIndex? id with
  | none => rfl
  | some n =>
    refine filter_modify_other hindex (fun _ => rfl) ?_
    intro t ht
    rw [decide_eq_true_eq] at ht
    rw [decide_eq_false_iff_not, ht]
    exact fun hc => hq hc.symm

/-- Counting changes nothing but files. -/
theorem countAt_eq (id : SourceId) (f : Ledger → Ledger) (s : Session) :
    s.countAt id f = { s with files := (s.countAt id f).files } := by
  unfold countAt
  cases s.fileIndex? id with
  | none => rfl
  | some n => rfl

/-- What is counted in the file of a source concerns its place. -/
theorem concerns_countAt (id : SourceId) (f : Ledger → Ledger) :
    Concerns id.place (countAt id f) where
  own := fun s t h => by
    have hfiles : (s.countAt id f).filesAt id.place = (t.countAt id f).filesAt id.place := by
      rw [filesAt_countAt_self, filesAt_countAt_self, h.files]
    rw [countAt_eq id f s, countAt_eq id f t]
    exact .of_stats ⟨h.settings, hfiles, h.failed, h.cache⟩ rfl rfl
  frame := fun s q hq h => by
    have hfiles : s.filesAt q = (s.countAt id f).filesAt q :=
      (filesAt_countAt_of_ne f s hq).symm
    rw [countAt_eq id f s]
    exact ⟨h.settings, hfiles, h.failed, h.cache⟩

/-! ### What a callback looks up -/

theorem files_saveMap (s : Session) (r : Revision) (m : SiteMap) :
    (s.saveMap r m).files = s.files := by
  unfold saveMap
  split
  · rfl
  · rfl

theorem files_survey (engine : Engine) (s : Session) (r : Revision) (source : String) :
    (survey engine s r source).2.files = s.files := by
  unfold survey
  split
  · rfl
  · exact files_saveMap s r _

/-- Looking for a map registers no file. -/
theorem files_mapOf (engine : Engine) (s : Session) (r : Revision) (source : String) :
    (mapOf engine s r source).2.files = s.files := by
  unfold mapOf
  split
  · rfl
  · exact files_survey engine _ r source
  · exact files_survey engine _ r source

/-- A source that had no file has the new one, which is the last. -/
theorem fileIndex?_addFile {s : Session} {r : Revision} (h : s.fileIndex? r.id = none)
    (source : String) (bytes : Bytes) (m : SiteMap) :
    (s.addFile r source bytes m).fileIndex? r.id = some s.files.length := by
  show (s.files ++ [_]).findIdx? _ = _
  rw [List.findIdx?_append, show s.files.findIdx? _ = none from h, Option.none_or,
    List.findIdx?_singleton]
  simp

/-- A callback counts in the file that its source has once it is prepared. -/
theorem ensure_eq (e : Surroundings) (s : Session) (id : SourceId) :
    s.ensure e id = ((s.prepare e id).fileIndex? id, s.prepare e id) := by
  unfold ensure prepare isDue
  cases hindex : s.fileIndex? id with
  | some n => simp [hindex]
  | none =>
    cases hfailed : s.failed.contains id.place with
    | true => simp [hindex]
    | false =>
      cases htracks : s.tracks id with
      | false => simp [hindex]
      | true =>
        simp only [Option.isNone_none, Bool.not_false, Bool.and_self, if_true, Bool.not_true,
          Bool.or_self, Bool.false_eq_true, if_false]
        unfold register attempt
        rw [hindex, htracks]
        cases hcontent : e.content id with
        | error fault => exact Prod.ext hindex.symm rfl
        | ok found =>
          obtain ⟨r, bytes⟩ := found
          obtain rfl : r.id = id := content_id hcontent
          have hfiles := files_mapOf e.engine s r (Utf8.lossy bytes)
          simp only [Bool.not_true, Bool.false_eq_true, if_false]
          generalize s.mapOf e.engine r (Utf8.lossy bytes) = x at hfiles
          obtain ⟨found, s'⟩ := x
          -- The new file is looked up where no other file of the source was found.
          have hnone : s'.fileIndex? r.id = none := by
            rw [fileIndex?, hfiles]
            exact hindex
          cases found with
          | error fault => exact Prod.ext hnone.symm rfl
          | ok m => exact Prod.ext (fileIndex?_addFile hnone _ bytes m).symm rfl

/-- What an engine reports of a source. -/
inductive Event where
  | line (id : SourceId) (line : Nat)
  | entry (id : SourceId) (name : Option String) (line : Nat)
  deriving DecidableEq

namespace Event

/-- The source of an event. -/
def id : Event → SourceId
  | .line id _ => id
  | .entry id _ _ => id

/-- The callback for an event. -/
def step : Event → Step
  | .line id n => .onLine id n
  | .entry id name n => .onEntry id name n

/-- What an event does to the ledger of its file. -/
def count : Event → Ledger → Ledger
  | .line _ n, l => l.recordLine n
  | .entry _ name n, l => (l.recordEntry name n).2

end Event

/-- A callback prepares its source and then counts in its file. -/
theorem take_step (e : Surroundings) (s : Session) (x : Event) :
    s.take e x.step = (s.prepare e x.id).countAt x.id x.count := by
  cases x with
  | line id n =>
    show s.onLine e id n = _
    rw [onLine_eq, ensure_eq]
    rfl
  | entry id name n =>
    show s.onEntry e id name n = _
    rw [onEntry_eq, ensure_eq]
    rfl

/-- An event concerns no other place than that of its source. -/
theorem concerns_take {e : Surroundings} {x : Event}
    (h : SourceId.ofText? x.id.text = some x.id) :
    Concerns x.id.place fun s => s.take e x.step := by
  simp only [take_step]
  exact (concerns_prepare h).comp (concerns_countAt x.id x.count)

end Session
end Coverage
