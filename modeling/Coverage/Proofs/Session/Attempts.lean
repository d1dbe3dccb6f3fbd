/-
  Coverage.Proofs.Session.Attempts

  Callbacks try to register a source at most once.

  Three memories decide whether a callback registers its source: the files, the sources whose
  registration by a callback has failed, and the set of tracked paths.  `Logged` is a session
  with a log of all registrations that were asked for, by callers and by callbacks; the log
  changes nothing of what the session does.  Whatever the session meets, its memories are what
  the log says (`Remembers`, by one lemma for an entry that is added): so it is the turn of a
  source if it is tracked and the log has nothing of it but failures of callers, and a callback
  registers its source in its turn and never else (`take_eq`).
-/

import Coverage.Proofs.Session.Registry

namespace Coverage.Session

open SourceId (Place)

variable {e : Surroundings} {s t : Session} {id other : SourceId}

/-! ## What a registration leaves of the memories -/

/-- A search finds the same for all spellings of a place. -/
theorem fileIndex?_of_place (s : Session) (h : id.place = other.place) :
    s.fileIndex? id = s.fileIndex? other := by
  rw [fileIndex?, fileIndex?, h]

/-- Whoever has a file is not registered again. -/
theorem register_of_index {n : Nat} (h : s.fileIndex? id = some n) (e : Surroundings) :
    s.register e id = (.ok n, s) := by
  rw [register, h]

/-- A search looks at files only. -/
theorem fileIndex?_of_files (h : t.files = s.files) (id : SourceId) :
    t.fileIndex? id = s.fileIndex? id := by
  rw [fileIndex?, fileIndex?, h]

/-- After a registration a search finds what it found before, and the number that the
    registration gave. -/
theorem fileIndex?_register (e : Surroundings) (s : Session) (id other : SourceId) :
    (s.register e id).2.fileIndex? other = (s.fileIndex? other).or
      (if id.place = other.place then (s.register e id).1.toOption else none) := by
  have houtcome := outcome_register e s id
  generalize s.register e id = found at houtcome ⊢
  obtain ⟨result, t⟩ := found
  have hfailed (fault : Fault) : (if id.place = other.place
      then (Except.error fault : Except Fault Nat).toOption else none) = none := ite_self none
  -- One case for each way a registration can end; only two of them add a file.
  cases houtcome with
  | known hindex =>
    by_cases hplace : id.place = other.place
    · rw [← fileIndex?_of_place _ hplace, hindex]
      rfl
    · rw [if_neg hplace, Option.or_none]
  | untracked hindex htracks => rw [hfailed, Option.or_none]
  | absent hnew hcontent => rw [hfailed, Option.or_none]
  | served hnew hcontent hload =>
    obtain rfl := content_id hcontent
    exact fileIndex?_addFile_or _ _ _ _ _ other
  | misparsed hnew hcontent hload hparse =>
    rw [hfailed, Option.or_none]
    exact fileIndex?_of_files rfl other
  | @parsed r bytes p hnew hcontent hload hparse =>
    obtain rfl := content_id hcontent
    have hfiles := files_saveMap (s.unserved r) r (SiteMap.ofProgram p)
    refine (fileIndex?_addFile_or _ _ _ _ _ other).trans ?_
    rw [fileIndex?_of_files hfiles, hfiles]
    rfl

theorem failed_saveMap (s : Session) (r : Revision) (m : SiteMap) :
    (s.saveMap r m).failed = s.failed := by
  unfold saveMap
  split
  · rfl
  · rfl

/-- A registration by itself notes no failure. -/
theorem failed_register (e : Surroundings) (s : Session) (id : SourceId) :
    (s.register e id).2.failed = s.failed := by
  have houtcome := outcome_register e s id
  generalize s.register e id = found at houtcome ⊢
  obtain ⟨result, t⟩ := found
  cases houtcome with
  | parsed hnew hcontent hload hparse => exact failed_saveMap (s.unserved _) _ _
  | _ => rfl

/-- A source is due if it has no file yet, no callback has failed at it, and it is tracked. -/
theorem isDue_eq_true : s.isDue id = true
    ↔ s.fileIndex? id = none ∧ id.place ∉ s.failed ∧ s.tracks id = true := by
  simp only [isDue, Bool.and_eq_true, Option.isNone_iff_eq_none, Bool.not_eq_true',
    ← Bool.not_eq_true, List.contains_iff_mem, and_assoc]

/-! ## A session with a log -/

/-- A registration that was asked for. -/
structure Registration where
  place : Place
  /-- Whether a callback asked for it; a caller did otherwise. -/
  byCallback : Bool
  /-- The number of the file, unless the registration failed. -/
  number : Option Nat
  deriving DecidableEq

/-- A session, and the registrations that it was asked for, the last one first. -/
structure Logged where
  session : Session
  log : List Registration

namespace Logged

/-- A session that tracks no file yet. -/
def start (settings : Settings) (cache : Cache) : Logged :=
  ⟨.start settings cache, []⟩

/-- Registers a source, and enters that in the log. -/
def register (e : Surroundings) (byCallback : Bool) (x : Logged) (id : SourceId) :
    Except Fault Nat × Logged :=
  let found := x.session.register e id
  (found.1, ⟨found.2, ⟨id.place, byCallback, found.1.toOption⟩ :: x.log⟩)

/-- The number of the file of a source, which is registered now if it is its turn. -/
def ensure (e : Surroundings) (x : Logged) (id : SourceId) : Option Nat × Logged :=
  match x.session.fileIndex? id with
  | some n => (some n, x)
  | none =>
    if x.session.failed.contains id.place || !x.session.tracks id then (none, x)
    else
      match x.register e true id with
      | (.ok n, y) => (some n, y)
      | (.error _, y) => (none, ⟨y.session.fail id.place, y.log⟩)

/-- A session after a callback that counts in the file that was looked up. -/
def counted (g : Ledger → Ledger) : Option Nat × Logged → Logged
  | (some n, x) => ⟨x.session.updateLedger n g, x.log⟩
  | (none, x) => x

/-- The session after a step; what is counted by number registers nothing. -/
def take (e : Surroundings) (x : Logged) : Step → Logged
  | .register id => (x.register e false id).2
  | .onLine id line => counted (fun l => l.recordLine line) (x.ensure e id)
  | .onEntry id name line => counted (fun l => (l.recordEntry name line).2) (x.ensure e id)
  | step => ⟨x.session.take e step, x.log⟩

/-- The session after an occurrence. -/
def meet (x : Logged) : Occurrence → Logged
  | .asked e step => x.take e step
  | .recached cache => ⟨{ x.session with cache }, x.log⟩

/-- The session after some occurrences. -/
def course (x : Logged) (os : List Occurrence) : Logged :=
  os.foldl meet x

variable {x : Logged}

/-! ## The log changes nothing -/

/-- Keeping a log does not change what is looked up. -/
theorem ensure_follows (e : Surroundings) (x : Logged) (id : SourceId) :
    (x.ensure e id).1 = (x.session.ensure e id).1
      ∧ (x.ensure e id).2.session = (x.session.ensure e id).2 := by
  unfold ensure Session.ensure register
  cases x.session.fileIndex? id with
  | some n => exact ⟨rfl, rfl⟩
  | none =>
    cases x.session.failed.contains id.place || !x.session.tracks id with
    | true => exact ⟨rfl, rfl⟩
    | false =>
      rcases x.session.register e id with ⟨fault | n, s⟩
      · exact ⟨rfl, rfl⟩
      · exact ⟨rfl, rfl⟩

theorem counted_follows {found : Option Nat × Logged} {plain : Option Nat × Session}
    (h : found.1 = plain.1 ∧ found.2.session = plain.2) (g : Ledger → Ledger) :
    (counted g found).session = Session.counted g plain := by
  obtain ⟨result, y⟩ := found
  obtain ⟨result', s⟩ := plain
  obtain ⟨rfl, rfl⟩ : result = result' ∧ y.session = s := h
  cases result with
  | none => rfl
  | some n => rfl

/-- A logged session takes each step as a plain one does. -/
theorem session_take (e : Surroundings) (x : Logged) (step : Step) :
    (x.take e step).session = x.session.take e step := by
  cases step with
  | onLine id line =>
    rw [Session.take, onLine_eq]
    exact counted_follows (ensure_follows e x id) _
  | onEntry id name line =>
    rw [Session.take, onEntry_eq]
    exact counted_follows (ensure_follows e x id) _
  | _ => rfl

/-- So the session beside a log takes the same course as one without. -/
theorem session_course (x : Logged) (os : List Occurrence) :
    (x.course os).session = x.session.course os := by
  induction os generalizing x with
  | nil => rfl
  | cons o rest ih =>
    have hmeet : (x.meet o).session = x.session.meet o := by
      cases o with
      | asked e step => exact session_take e x step
      | recached cache => rfl
    rw [course_cons, ← hmeet]
    exact ih (x.meet o)

/-! ## The memories are what the log says -/

/-- Whether a callback asked for the registration of a place. -/
def Registration.triedAt (p : Place) (r : Registration) : Bool :=
  r.byCallback && r.place = p

/-- A search finds what a registration has given, failures are noted if they are those of
    callbacks, and no two callbacks have asked for one place. -/
structure Remembers (x : Logged) : Prop where
  index : ∀ id n, x.session.fileIndex? id = some n ↔ ∃ c, ⟨id.place, c, some n⟩ ∈ x.log
  failed : ∀ p, p ∈ x.session.failed ↔ ⟨p, true, none⟩ ∈ x.log
  once : ∀ p, x.log.countP (Registration.triedAt p) ≤ 1

/-- Nothing has been tried yet, and nothing is found. -/
theorem remembers_start (settings : Settings) (cache : Cache) :
    (start settings cache).Remembers where
  index := fun id n => by
    constructor
    · intro h
      cases h
    · rintro ⟨c, h⟩
      exact absurd h List.not_mem_nil
  failed := fun p => iff_of_false List.not_mem_nil List.not_mem_nil
  once := fun p => Nat.zero_le 1

/-- What neither registers nor notes a failure changes no memory. -/
theorem Remembers.of_session (h : x.Remembers) {t : Session}
    (hindex : ∀ id, t.fileIndex? id = x.session.fileIndex? id)
    (hfailed : t.failed = x.session.failed) : Remembers ⟨t, x.log⟩ where
  index := fun id n => by rw [hindex id, h.index id n]
  failed := fun p => by rw [hfailed, h.failed p]
  once := h.once

/-- An entry may be added if the session has its number, and has noted its failure if that is
    one of a callback that is the first to ask for the place. -/
theorem Remembers.enter (h : x.Remembers) {r : Registration} {t : Session}
    (hindex : ∀ id, t.fileIndex? id
      = (x.session.fileIndex? id).or (if r.place = id.place then r.number else none))
    (hfailed : ∀ p, p ∈ t.failed ↔ p ∈ x.session.failed ∨ r = ⟨p, true, none⟩)
    (hknown : ∀ id n, x.session.fileIndex? id = some n → r.place = id.place → r.number = some n)
    (hfirst : r.byCallback = true → ∀ q ∈ x.log, q.place = r.place → q.byCallback = false) :
    Remembers ⟨t, r :: x.log⟩ where
  index := fun id n => by
    rw [hindex id, Option.or_eq_some_iff]
    constructor
    · rintro (hfound | ⟨-, hnew⟩)
      · obtain ⟨c, hc⟩ := (h.index id n).1 hfound
        exact ⟨c, List.mem_cons_of_mem r hc⟩
      · obtain ⟨hplace, hnumber⟩ := Option.ite_none_right_eq_some.1 hnew
        exact ⟨r.byCallback, hplace ▸ hnumber ▸ List.mem_cons_self⟩
    · rintro ⟨c, hc⟩
      rcases List.mem_cons.1 hc with rfl | hold
      · cases hfound : x.session.fileIndex? id with
        | none => exact .inr ⟨rfl, if_pos rfl⟩
        | some m => exact .inl (hknown id m hfound rfl).symm
      · exact .inl ((h.index id n).2 ⟨c, hold⟩)
  failed := fun p => by
    rw [hfailed p, h.failed p, List.mem_cons, or_comm, eq_comm]
  once := fun p => by
    rw [List.countP_cons]
    split
    · -- The callbacks before have all asked for other places.
      rename_i htried
      obtain ⟨hcallback, hplace⟩ : r.byCallback = true ∧ r.place = p := by
        simpa [Registration.triedAt] using htried
      have hnone : x.log.countP (Registration.triedAt p) = 0 := by
        rw [List.countP_eq_zero]
        intro q hq hqtried
        obtain ⟨hqcallback, hqplace⟩ : q.byCallback = true ∧ q.place = p := by
          simpa [Registration.triedAt] using hqtried
        rw [hfirst hcallback q hq (hqplace.trans hplace.symm)] at hqcallback
        cases hqcallback
      omega
    · exact h.once p

/-! ## Turns -/

/-- Whether nothing is in the log of a place but registrations that failed, all of them asked
    for by callers. -/
def Untried (x : Logged) (p : Place) : Prop :=
  ∀ r ∈ x.log, r.place = p → r.byCallback = false ∧ r.number = none

/-- Whether nothing in the log has registered a place. -/
def Unregistered (x : Logged) (p : Place) : Prop :=
  ∀ r ∈ x.log, r.place = p → r.number = none

/-- A source has no file exactly if no attempt at its place has succeeded. -/
theorem Remembers.fileIndex?_eq_none (h : x.Remembers) :
    x.session.fileIndex? id = none ↔ x.Unregistered id.place := by
  constructor
  · intro hnone r hr hplace
    cases hnumber : r.number with
    | none => rfl
    | some n =>
      have hfound := (h.index id n).2 ⟨r.byCallback, hplace ▸ hnumber ▸ hr⟩
      rw [hnone] at hfound
      cases hfound
  · intro hunregistered
    cases hfound : x.session.fileIndex? id with
    | none => rfl
    | some n =>
      obtain ⟨c, hc⟩ := (h.index id n).1 hfound
      cases hunregistered _ hc rfl

/-- It is the turn of a source that is tracked and that no callback has tried to register, nor
    any caller registered. -/
theorem Remembers.isDue_iff (h : x.Remembers) :
    x.session.isDue id = true ↔ x.session.tracks id = true ∧ x.Untried id.place := by
  rw [isDue_eq_true, h.fileIndex?_eq_none, h.failed]
  constructor
  · rintro ⟨hunregistered, hfailed, htracks⟩
    refine ⟨htracks, fun r hr hplace => ⟨?_, hunregistered r hr hplace⟩⟩
    rw [← Bool.not_eq_true]
    intro hcallback
    have hnumber := hunregistered r hr hplace
    exact hfailed (hplace ▸ hcallback ▸ hnumber ▸ hr)
  · rintro ⟨htracks, huntried⟩
    refine ⟨fun r hr hplace => (huntried r hr hplace).2, fun hfailed => ?_, htracks⟩
    cases (huntried _ hfailed rfl).1

/-! ## What a callback does -/

/-- A session after a callback that has tried to register its source. -/
def tried (ev : Event) (log : List Registration) : Except Fault Nat × Session → Logged
  | (.ok n, t) => ⟨t.updateLedger n ev.count, ⟨ev.id.place, true, some n⟩ :: log⟩
  | (.error _, t) => ⟨t.fail ev.id.place, ⟨ev.id.place, true, none⟩ :: log⟩

/-- A callback tries to register its source if that is due, and otherwise counts in its file if
    there is one. -/
theorem take_eq (e : Surroundings) (x : Logged) (ev : Event) :
    x.take e ev.step = if x.session.isDue ev.id then tried ev x.log (x.session.register e ev.id)
      else counted ev.count (x.session.fileIndex? ev.id, x) := by
  have htake : x.take e ev.step = counted ev.count (x.ensure e ev.id) := by
    cases ev with
    | line id line => rfl
    | entry id name line => rfl
  rw [htake]
  unfold ensure isDue
  -- Found, failed at, not tracked, or due: in this order a callback asks.
  cases x.session.fileIndex? ev.id with
  | some n => rfl
  | none =>
    cases x.session.failed.contains ev.id.place with
    | true => rfl
    | false =>
      cases x.session.tracks ev.id with
      | false => rfl
      | true =>
        unfold register
        dsimp only [Option.isNone_none, Bool.not_false, Bool.and_self, Bool.not_true, Bool.or_self]
        rcases x.session.register e ev.id with ⟨fault | n, t⟩
        · rfl
        · rfl

/-- Registering a source is noted with its result. -/
theorem Remembers.register (h : x.Remembers) (e : Surroundings) (id : SourceId) :
    (x.register e false id).2.Remembers := by
  refine h.enter (fileIndex?_register e x.session id) ?_ ?_ ?_
  · intro p
    rw [failed_register e x.session id]
    simp
  · intro other n hfound hplace
    rw [register_of_index ((fileIndex?_of_place x.session hplace).trans hfound)]
    rfl
  · intro hcallback
    cases hcallback

/-- An attempt of a callback is noted; it is the first at its place, since the source was due. -/
theorem Remembers.tried (h : x.Remembers) (e : Surroundings) {ev : Event}
    (hdue : x.session.isDue ev.id = true) :
    (tried ev x.log (x.session.register e ev.id)).Remembers := by
  obtain ⟨hnone, -, -⟩ := isDue_eq_true.1 hdue
  obtain ⟨-, huntried⟩ := h.isDue_iff.1 hdue
  -- There is no file yet, and no callback has asked before.
  have hknown (number : Option Nat) (id : SourceId) (n : Nat)
      (hfound : x.session.fileIndex? id = some n) (hplace : ev.id.place = id.place) :
      number = some n := by
    rw [← fileIndex?_of_place x.session hplace, hnone] at hfound
    cases hfound
  have hfirst (q : Registration) (hq : q ∈ x.log) (hplace : q.place = ev.id.place) :
      q.byCallback = false := (huntried q hq hplace).1
  have hindex := fileIndex?_register e x.session ev.id
  have hfailed := failed_register e x.session ev.id
  generalize x.session.register e ev.id = found at hindex hfailed
  obtain ⟨fault | n, t⟩ := found
  · refine h.enter (r := ⟨ev.id.place, true, none⟩) hindex ?_ (hknown none) fun _ => hfirst
    intro p
    show p ∈ ev.id.place :: t.failed ↔ _
    rw [hfailed, List.mem_cons]
    simp [or_comm, eq_comm]
  · have hentered := h.enter (r := ⟨ev.id.place, true, some n⟩) (t := t) hindex
      (fun p => by rw [hfailed]; simp) (hknown (some n)) fun _ => hfirst
    exact hentered.of_session (fileIndex?_updateLedger t n ev.count) rfl

/-- A step keeps the log true. -/
theorem Remembers.take (h : x.Remembers) (e : Surroundings) (step : Step) :
    (x.take e step).Remembers := by
  have hcallback (ev : Event) : (x.take e ev.step).Remembers := by
    rw [take_eq]
    cases hdue : x.session.isDue ev.id with
    | true => exact h.tried e hdue
    | false =>
      cases x.session.fileIndex? ev.id with
      | none => exact h
      | some n => exact h.of_session (fileIndex?_updateLedger x.session n ev.count) rfl
  cases step with
  | register id => exact h.register e id
  | onLine id line => exact hcallback (.line id line)
  | onEntry id name line => exact hcallback (.entry id name line)
  | _ => exact h.of_session (fileIndex?_updateLedger x.session _ _) rfl

/-- So does any course. -/
theorem Remembers.course (h : x.Remembers) (os : List Occurrence) : (x.course os).Remembers := by
  induction os generalizing x with
  | nil => exact h
  | cons o rest ih =>
    cases o with
    | asked e step => exact ih (h.take e step)
    | recached cache => exact ih (h.of_session (fun _ => rfl) rfl)

/-! ## The log only grows -/

/-- A step notes what is tried, and forgets nothing. -/
theorem log_take (e : Surroundings) (x : Logged) (step : Step) :
    x.log <:+ (x.take e step).log := by
  have hcallback (ev : Event) : x.log <:+ (x.take e ev.step).log := by
    rw [take_eq]
    cases x.session.isDue ev.id with
    | true =>
      rcases x.session.register e ev.id with ⟨fault | n, t⟩
      · exact List.suffix_cons _ _
      · exact List.suffix_cons _ _
    | false =>
      cases x.session.fileIndex? ev.id with
      | none => exact List.suffix_rfl
      | some n => exact List.suffix_rfl
  cases step with
  | register id => exact List.suffix_cons _ _
  | onLine id line => exact hcallback (.line id line)
  | onEntry id name line => exact hcallback (.entry id name line)
  | _ => exact List.suffix_rfl

theorem log_course (x : Logged) (os : List Occurrence) : x.log <:+ (x.course os).log := by
  induction os generalizing x with
  | nil => exact List.suffix_rfl
  | cons o rest ih =>
    cases o with
    | asked e step => exact (log_take e x step).trans (ih _)
    | recached cache => exact ih ⟨{ x.session with cache }, x.log⟩

/-! ## At most one attempt -/

/-- What callbacks do, and do not do, in a session and whatever it meets from then on. -/
structure TriesOnce (x : Logged) : Prop where
  /-- No two callbacks have asked for the registration of one source. -/
  once : ∀ p, x.log.countP (Registration.triedAt p) ≤ 1
  /-- A callback asks for it if the source is tracked and only callers have asked before, in
      vain. -/
  tries : ∀ (e : Surroundings) (ev : Event), x.session.tracks ev.id = true →
    x.Untried ev.id.place → x.take e ev.step = tried ev x.log (x.session.register e ev.id)
  /-- Where the source is registered, a callback counts in its file and does nothing else. -/
  counts : ∀ (e : Surroundings) (ev : Event) c n, ⟨ev.id.place, c, some n⟩ ∈ x.log →
    x.take e ev.step = ⟨x.session.updateLedger n ev.count, x.log⟩
  /-- Once a callback has asked in vain, no other one changes anything, whatever there is to be
      found around, as long as the source is not registered. -/
  silenced : ∀ p more, ⟨p, true, none⟩ ∈ x.log → (x.course more).Unregistered p →
    ∀ (e : Surroundings) (ev : Event), ev.id.place = p →
      (x.course more).take e ev.step = x.course more
  /-- Once a caller has registered a source, callbacks count in its file from then on. -/
  recovers : ∀ e id n more, (x.register e false id).1 = .ok n →
    ∀ (e' : Surroundings) (ev : Event), ev.id.place = id.place →
    ((x.register e false id).2.course more).take e' ev.step
      = ⟨((x.register e false id).2.course more).session.updateLedger n ev.count,
        ((x.register e false id).2.course more).log⟩
  /-- A caller that asks in vain does not take its turn from a callback. -/
  undeterred : ∀ e id fault, (x.register e false id).1 = .error fault →
    ∀ p, (x.register e false id).2.Untried p ↔ x.Untried p
  /-- A callback for a source that is neither tracked nor registered changes nothing. -/
  untracked : ∀ (e : Surroundings) (ev : Event), x.session.tracks ev.id = false →
    x.Unregistered ev.id.place → x.take e ev.step = x

/-- A callback changes nothing out of turn, if there is no file to count in. -/
theorem Remembers.take_eq_self (h : x.Remembers) (e : Surroundings) {ev : Event}
    (hunregistered : x.Unregistered ev.id.place)
    (hturn : ¬(x.session.tracks ev.id = true ∧ x.Untried ev.id.place)) :
    x.take e ev.step = x := by
  rw [take_eq, if_neg fun hdue => hturn (h.isDue_iff.1 hdue),
    h.fileIndex?_eq_none.2 hunregistered]
  rfl

/-- A source that was registered at some time is counted in the file it was given then. -/
theorem Remembers.take_registered (h : x.Remembers) (e : Surroundings) {ev : Event} {c : Bool}
    {n : Nat} (hregistered : ⟨ev.id.place, c, some n⟩ ∈ x.log) :
    x.take e ev.step = ⟨x.session.updateLedger n ev.count, x.log⟩ := by
  have hfound : x.session.fileIndex? ev.id = some n := (h.index ev.id n).2 ⟨c, hregistered⟩
  have hnotDue : ¬x.session.isDue ev.id = true := by
    rw [isDue_eq_true, hfound]
    simp
  rw [take_eq, if_neg hnotDue, hfound]
  rfl

/-- All that is said of attempts is read off the log. -/
theorem Remembers.triesOnce (h : x.Remembers) : x.TriesOnce where
  once := h.once
  tries := fun e ev htracks huntried => by
    rw [take_eq, if_pos (h.isDue_iff.2 ⟨htracks, huntried⟩)]
  counts := fun e ev c n hregistered => h.take_registered e hregistered
  silenced := fun p more hfailed hunregistered e ev hplace => by
    subst hplace
    refine (h.course more).take_eq_self e hunregistered fun hturn => ?_
    cases (hturn.2 _ ((log_course x more).subset hfailed) rfl).1
  recovers := fun e id n more hok e' ev hplace => by
    refine ((h.register e id).course more).take_registered e' (c := false) ?_
    apply (log_course (x.register e false id).2 more).subset
    show _ ∈ ⟨id.place, false, (x.register e false id).1.toOption⟩ :: x.log
    rw [hok, hplace]
    exact List.mem_cons_self
  undeterred := fun e id fault herror p => by
    have hlog : (x.register e false id).2.log = ⟨id.place, false, none⟩ :: x.log := by
      show ⟨id.place, false, (x.register e false id).1.toOption⟩ :: x.log = _
      rw [herror]
      rfl
    rw [Untried, hlog, List.forall_mem_cons]
    exact and_iff_right fun _ => ⟨rfl, rfl⟩
  untracked := fun e ev htracks hunregistered => by
    refine h.take_eq_self e hunregistered fun hturn => ?_
    rw [htracks] at hturn
    cases hturn.1

/-- Whatever a session meets, callbacks try to register a source at most once, and the log in
    which that can be read changes nothing of what the session does. -/
theorem callbacks_try_once (settings : Settings) (cache : Cache) (os : List Occurrence) :
    ((start settings cache).course os).session = (Session.start settings cache).course os
      ∧ ((start settings cache).course os).TriesOnce :=
  ⟨session_course (start settings cache) os,
    ((remembers_start settings cache).course os).triesOnce⟩

/-- Where the script is not there yet. -/
def nothingYet : Surroundings :=
  { Host.oneScript with workspace := ⟨["work"], [], 0⟩ }

/-- A caller and then a callback ask for the script before it is there. -/
def askedTooEarly : List Occurrence :=
  [.asked nothingYet (.register (.file "/a.js")), .asked nothingYet (.onLine (.file "/a.js") 1)]

/-- The caller's failure left the callback its turn.  Once the script is there, a callback does
    nothing, under whatever spelling, until a caller registers the script; then it counts. -/
theorem callbacks_try_once_tooEarly :
    ((start ⟨["/a"], none⟩ .inMemory).course askedTooEarly).log
        = [⟨(SourceId.file "/a.js").place, true, none⟩,
          ⟨(SourceId.file "/a.js").place, false, none⟩]
      ∧ ((start ⟨["/a"], none⟩ .inMemory).course askedTooEarly).take Host.oneScript
          (.onLine (.file "/a.js/.") 1)
        = (start ⟨["/a"], none⟩ .inMemory).course askedTooEarly
      ∧ (((((start ⟨["/a"], none⟩ .inMemory).course askedTooEarly).register Host.oneScript false
          (.file "/a.js")).2.take nothingYet (.onLine (.file "/a.js/.") 1)).session.lineHits? 0 1
        = some 1) := by
  obtain ⟨-, honce⟩ := callbacks_try_once ⟨["/a"], none⟩ .inMemory askedTooEarly
  have hlog : ((start ⟨["/a"], none⟩ .inMemory).course askedTooEarly).log
      = [⟨(SourceId.file "/a.js").place, true, none⟩,
          ⟨(SourceId.file "/a.js").place, false, none⟩] := by
    decide +kernel
  have hplace : (SourceId.file "/a.js/.").place = (SourceId.file "/a.js").place := by decide +kernel
  -- The other spelling is silenced by the failed attempt, and counted after the later one.
  refine ⟨hlog, ?_, ?_⟩
  · refine honce.silenced (SourceId.file "/a.js").place [] ?_ ?_ _
      (.line (.file "/a.js/.") 1) hplace
    · rw [hlog]
      exact List.mem_cons_self
    · show ∀ r ∈ ((start ⟨["/a"], none⟩ .inMemory).course askedTooEarly).log, _
      rw [hlog]
      decide +kernel
  · have hcounted := honce.recovers Host.oneScript (.file "/a.js") 0 [] (by decide +kernel)
      nothingYet (.line (.file "/a.js/.") 1) hplace
    refine (congrArg (fun y => y.session.lineHits? 0 1) hcounted).trans ?_
    decide +kernel

end Logged
end Coverage.Session
