/-
  Coverage.Proofs.Session.Course

  The course of a session in a world that changes.

  Each step of a course has surroundings of its own, and between two steps the cache may become
  any other one (`Occurrence`); so files, resources and cache may change in whatever way.  What
  a host does while it keeps its session is such a course (`Host.exists_course`).

  Every step is put together from three changes: a registration, a note that one failed, and a
  charge to a ledger.  What these keep, every step keeps (`take_induct`), and so every course
  (`course_induct`).  What a registration can come to is said once (`Outcome`).
-/

import Coverage.Proofs.Session.Counts

namespace Coverage

open Ledger (Charge)
open Text (Utf8.lossy)

namespace Session

variable {e : Surroundings} {s : Session} {id : SourceId}

/-! ## Registrations -/

/-- The errors that are counted when the cache is asked for a revision. -/
def readErrors (s : Session) (r : Revision) : Nat :=
  match s.cache.load r with
  | .ok _ => 0
  | .error _ => 1

/-- The session after its cache was asked for a map in vain. -/
def unserved (s : Session) (r : Revision) : Session :=
  { s with stats := s.stats.plus ⟨0, 1, 0, s.readErrors r, 0⟩ }

/-- A source whose turn has come: it is tracked and has no file yet. -/
structure IsNew (s : Session) (id : SourceId) : Prop where
  index : s.fileIndex? id = none
  tracked : s.tracks id = true

/-- What a registration can come to: its result and the session after it. -/
inductive Outcome (e : Surroundings) (s : Session) (id : SourceId) :
    Except Fault Nat → Session → Prop
  /-- The source has a file. -/
  | known {n : Nat} (hindex : s.fileIndex? id = some n) : Outcome e s id (.ok n) s
  /-- The source is outside the set of tracked paths. -/
  | untracked (hindex : s.fileIndex? id = none) (htracks : s.tracks id = false) :
      Outcome e s id (.error (.untracked id.text)) s
  /-- There is no content. -/
  | absent {fault : Fault} (hnew : s.IsNew id) (hcontent : e.content id = .error fault) :
      Outcome e s id (.error fault) s
  /-- The cache has the map. -/
  | served {r : Revision} {bytes : Bytes} {m : SiteMap} (hnew : s.IsNew id)
      (hcontent : e.content id = .ok (r, bytes)) (hload : s.cache.load r = .ok (some m)) :
      Outcome e s id (.ok s.files.length)
        ({ s with stats := s.stats.plus ⟨1, 0, 0, 0, 0⟩ }.addFile r (Utf8.lossy bytes) bytes m)
  /-- The cache does not have the map, and the source does not parse. -/
  | misparsed {r : Revision} {bytes : Bytes} {why : Script.SyntaxFault} (hnew : s.IsNew id)
      (hcontent : e.content id = .ok (r, bytes)) (hload : ∀ m, s.cache.load r ≠ .ok (some m))
      (hparse : e.engine (Utf8.lossy bytes) r.id.text = .error why) :
      Outcome e s id (.error (.misparsed why))
        { s with stats := s.stats.plus ⟨0, 1, 0, s.readErrors r, 1⟩ }
  /-- The cache does not have the map, and is offered the one that parsing gives. -/
  | parsed {r : Revision} {bytes : Bytes} {p : Script.Program} (hnew : s.IsNew id)
      (hcontent : e.content id = .ok (r, bytes)) (hload : ∀ m, s.cache.load r ≠ .ok (some m))
      (hparse : e.engine (Utf8.lossy bytes) r.id.text = .ok p) :
      Outcome e s id (.ok s.files.length)
        (((s.unserved r).saveMap r (SiteMap.ofProgram p)).addFile r (Utf8.lossy bytes) bytes
          (SiteMap.ofProgram p))

/-- A map is parsed where the cache has none, whether it says so or cannot be read. -/
theorem mapOf_unserved (engine : Engine) {r : Revision} (source : String)
    (hload : ∀ m, s.cache.load r ≠ .ok (some m)) :
    s.mapOf engine r source = survey engine (s.unserved r) r source := by
  unfold mapOf unserved readErrors
  cases hfound : s.cache.load r with
  | error fault => rfl
  | ok found =>
    cases found with
    | none => rfl
    | some m => exact absurd hfound (hload m)

/-- A registration ends in one of six ways, told by the index, the path set, the content, the
    cache and the parser, in this order. -/
theorem outcome_register (e : Surroundings) (s : Session) (id : SourceId) :
    Outcome e s id (s.register e id).1 (s.register e id).2 := by
  cases hindex : s.fileIndex? id with
  | some n =>
    rw [register, hindex]
    exact .known hindex
  | none =>
    cases htracks : s.tracks id with
    | false =>
      simp only [register, hindex, htracks, Bool.not_false, if_true]
      exact .untracked hindex htracks
    | true =>
      have hnew : s.IsNew id := ⟨hindex, htracks⟩
      cases hcontent : e.content id with
      | error fault =>
        simp only [register, hindex, htracks, hcontent, Bool.not_true, Bool.false_eq_true, if_false]
        exact .absent hnew hcontent
      | ok found =>
        obtain ⟨r, bytes⟩ := found
        simp only [register, hindex, htracks, hcontent, Bool.not_true, Bool.false_eq_true, if_false]
        by_cases hserved : ∃ m, s.cache.load r = .ok (some m)
        · obtain ⟨m, hload⟩ := hserved
          simp only [mapOf, hload]
          exact .served hnew hcontent hload
        · have hload : ∀ m, s.cache.load r ≠ .ok (some m) := not_exists.1 hserved
          rw [mapOf_unserved e.engine _ hload, survey]
          cases hparse : e.engine (Utf8.lossy bytes) r.id.text with
          | error why => exact .misparsed hnew hcontent hload hparse
          | ok p =>
            have hlength : ((s.unserved r).saveMap r (SiteMap.ofProgram p)).files = s.files :=
              files_saveMap _ r _
            simp only [hlength]
            exact .parsed hnew hcontent hload hparse

/-! ## Steps -/

/-- What registrations, notes of failure and charges keep, every step keeps. -/
theorem take_induct {P : Session → Prop}
    (hregister : ∀ s id, P s → P (s.register e id).2)
    (hfail : ∀ s p, P s → P (s.fail p))
    (hcharge : ∀ s n (c : Charge), P s → P (s.updateLedger n fun l => l.charge c))
    (x : Step) (hs : P s) : P (s.take e x) := by
  -- A callback registers at most once, and notes it if that fails.
  have hensure (id : SourceId) : P (s.ensure e id).2 := by
    have hafter := hregister s id hs
    unfold ensure
    split
    · exact hs
    · split
      · exact hs
      · generalize s.register e id = found at hafter
        obtain ⟨fault | n, t⟩ := found
        · exact hfail t id.place hafter
        · exact hafter
  have hcallback (id : SourceId) (c : Charge) :
      P (counted (fun l => l.charge c) (s.ensure e id)) := by
    have hafter := hensure id
    generalize s.ensure e id = found at hafter
    obtain ⟨_ | n, t⟩ := found
    · exact hafter
    · exact hcharge t n c hafter
  cases x with
  | register id => exact hregister s id hs
  | onLine id line =>
    rw [take, onLine_eq]
    exact hcallback id (.line line)
  | onEntry id name line =>
    rw [take, onEntry_eq]
    exact hcallback id (.entry name line)
  | countLine file line => exact hcharge s file (.line line) hs
  | countExit file line index => exact hcharge s file (.exit line index) hs
  | countCall file key => exact hcharge s file (.call key) hs
  | countEntry file name line => exact hcharge s file (.entry name line) hs

/-! ## Courses -/

/-- What comes next for a session. -/
inductive Occurrence where
  /-- Something is asked of it, in what it finds around it now. -/
  | asked (e : Surroundings) (x : Step)
  /-- Its cache becomes another one. -/
  | recached (cache : Cache)

/-- The session after an occurrence. -/
def meet (s : Session) : Occurrence → Session
  | .asked e x => s.take e x
  | .recached cache => { s with cache }

/-- The session after some occurrences. -/
def course (s : Session) (os : List Occurrence) : Session :=
  os.foldl meet s

theorem course_cons (s : Session) (o : Occurrence) (os : List Occurrence) :
    s.course (o :: os) = (s.meet o).course os := rfl

theorem course_append (s : Session) (os more : List Occurrence) :
    s.course (os ++ more) = (s.course os).course more :=
  List.foldl_append

/-- What registrations, notes of failure, charges and other caches keep, every course keeps. -/
theorem course_induct {P : Session → Prop}
    (hregister : ∀ e s id, P s → P (s.register e id).2)
    (hfail : ∀ s p, P s → P (s.fail p))
    (hcharge : ∀ s n (c : Charge), P s → P (s.updateLedger n fun l => l.charge c))
    (hcache : ∀ s c, P s → P { s with cache := c })
    (os : List Occurrence) (hs : P s) : P (s.course os) := by
  induction os generalizing s with
  | nil => exact hs
  | cons o rest ih =>
    apply ih
    cases o with
    | asked e x => exact take_induct (hregister e) hfail hcharge x hs
    | recached cache => exact hcache s cache hs

end Session

namespace Host

open Session (Occurrence)

/-- While a host keeps its session, all it does is a course of that session. -/
theorem exists_course {h : Host} {steps : List Step} (hsteps : ∀ x ∈ steps, x.restarts = false) :
    ∃ os, (h.run steps).session = h.session.course os := by
  induction steps generalizing h with
  | nil => exact ⟨[], rfl⟩
  | cons x rest ih =>
    obtain ⟨hx, hrest⟩ := List.forall_mem_cons.1 hsteps
    obtain ⟨os, hos⟩ := ih (h := h.take x) hrest
    -- Whatever is not asked of the session changes no more of it than its cache.
    obtain ⟨o, ho⟩ : ∃ o, (h.take x).session = h.session.meet o := by
      cases x with
      | ask step => exact ⟨.asked h.surroundings step, rfl⟩
      | restart settings next => cases hx
      | _ => exact ⟨.recached _, rfl⟩
    exact ⟨o :: os, hos.trans (by rw [ho]; rfl)⟩

end Host
end Coverage
