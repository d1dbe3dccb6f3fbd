/-
  Coverage.Proofs.Session.Registry

  The registry of a session is consistent, whatever the session meets.

  A session finds the file of a source by a search through its files.  `Indexed` is a session
  that keeps an index instead, and asks that first; it does what the session without an index
  does, since the index always says what the search would find (`Follows`, by one lemma for each
  function).  Files are only appended and no two of them have one place, so the index leads to
  exactly the files (`Consistent`), and whoever is in it stays there with the same number.
-/

import Coverage.Proofs.Session.Course

namespace Coverage

open SourceId (Place)
open Text (Utf8.lossy)

/-! ## What stays the same of a file -/

namespace Ledger

/-- The tables of counters have the sizes that the map gives them: one counter for each line up
    to the last, one for the number 0, which is no line, and one for each function. -/
structure Fitted (l : Ledger) : Prop where
  lines : l.counters.lines.size = l.map.maxLine + 1
  functions : l.counters.functions.size = l.map.functions.length

/-- A new ledger has the tables that its map asks for. -/
theorem fitted_ofMap (m : SiteMap) : (ofMap m).Fitted :=
  ⟨rfl, Array.size_replicate⟩

/-- No charge makes the table of lines grow. -/
theorem size_lines_charge (l : Ledger) (x : Charge) :
    (l.charge x).counters.lines.size = l.counters.lines.size := by
  cases x with
  | line ran =>
    show (l.counters.recordLine ran).lines.size = _
    unfold Counters.recordLine
    split
    · exact Table.size_add ..
    · rfl
  | exit taken n => rfl
  | call key =>
    rw [charge_call, called_eq]
  | entry name at_ =>
    rw [charge_entry, called_eq]

/-- A charge leaves the tables as large as they are. -/
theorem Fitted.charge {l : Ledger} (h : l.Fitted) (x : Charge) : (l.charge x).Fitted where
  lines := by rw [size_lines_charge, map_charge, h.lines]
  functions := complete_charge x h.functions

end Ledger

/-- A file as it was when it was registered. -/
def CoveredFile.asRegistered (f : CoveredFile) : CoveredFile :=
  { f with ledger := .ofMap f.ledger.map }

namespace Session

open Ledger (Charge)

variable {s t u : Session}

/-- One session has the files of another as they were registered, and perhaps more after them. -/
def Extends (s t : Session) : Prop :=
  s.files.map CoveredFile.asRegistered <+: t.files.map CoveredFile.asRegistered

theorem Extends.refl (s : Session) : s.Extends s :=
  List.prefix_refl _

theorem Extends.trans (h : s.Extends t) (h' : t.Extends u) : s.Extends u :=
  List.IsPrefix.trans h h'

/-- A session that only counted has the files it had. -/
theorem Extends.of_eq
    (h : t.files.map CoveredFile.asRegistered = s.files.map CoveredFile.asRegistered) :
    s.Extends t := by
  show s.files.map CoveredFile.asRegistered <+: t.files.map CoveredFile.asRegistered
  exact h ▸ List.prefix_refl _

/-- A session that admits a file has it after those it had. -/
theorem Extends.of_admits (h : s.Admits t.files) : s.Extends t := by
  rcases h with hsame | ⟨f, m, hadded, -, -⟩
  · exact .of_eq (congrArg _ hsame)
  · rw [Extends, hadded, List.map_append]
    exact List.prefix_append ..

/-- What is counted is not seen by those who do not look at the ledger. -/
theorem map_files_updateLedger {α : Type} {view : CoveredFile → α} {g : Ledger → Ledger}
    (hview : ∀ f, view { f with ledger := g f.ledger } = view f) (s : Session) (n : Nat) :
    (s.updateLedger n g).files.map view = s.files.map view := by
  refine List.ext_getElem? fun i => ?_
  rw [List.getElem?_map, List.getElem?_map, getElem?_updateLedger, Option.map_map]
  congr 1
  funext f
  show view (if n = i then _ else f) = view f
  split
  · exact hview f
  · rfl

/-- What is charged to a file does not change what was registered. -/
theorem map_asRegistered_charge (s : Session) (n : Nat) (c : Charge) :
    (s.updateLedger n fun l => l.charge c).files.map CoveredFile.asRegistered
      = s.files.map CoveredFile.asRegistered :=
  map_files_updateLedger (fun f => by simp only [CoveredFile.asRegistered, Ledger.map_charge]) s n

/-- Along a course files are added, and those that are there stay as they were registered. -/
theorem extends_course (s : Session) (os : List Occurrence) : s.Extends (s.course os) := by
  refine course_induct (P := fun t => s.Extends t) ?_ ?_ ?_ ?_ os (.refl s)
  · exact fun e t id h => h.trans (.of_admits (admits_register e t id))
  · exact fun t p h => h
  · exact fun t n c h => h.trans (.of_eq (map_asRegistered_charge t n c))
  · exact fun t c h => h

/-- Along a course no place comes to have two files. -/
theorem separate_course (hs : Separate s.files) (os : List Occurrence) :
    Separate (s.course os).files := by
  induction os generalizing s with
  | nil => exact hs
  | cons o rest ih =>
    rw [course_cons]
    cases o with
    | asked e x => exact ih (separate_take hs e x)
    | recached cache => exact ih hs

/-- All tables of counters have the sizes that the maps give them. -/
def Fitted (s : Session) : Prop :=
  ∀ f ∈ s.files, f.ledger.Fitted

/-- Along a course all tables keep the sizes that the maps give them. -/
theorem fitted_course (hs : s.Fitted) (os : List Occurrence) : (s.course os).Fitted := by
  -- A step registers a file, notes that it failed at one, or counts in one, and between steps a
  -- cache may be handed over; only the first and the third touch counters.
  refine course_induct (P := Fitted) ?_ ?_ ?_ ?_ os hs
  · intro e t id h
    rcases admits_register e t id with hsame | ⟨f, m, hadded, hledger, -⟩
    · exact fun g hg => h g (hsame ▸ hg)
    · intro g hg
      rw [hadded, List.mem_append, List.mem_singleton] at hg
      rcases hg with hg | rfl
      · exact h g hg
      · rw [hledger]
        exact Ledger.fitted_ofMap m
  · exact fun t p h => h
  · intro t n c h f hf
    obtain ⟨i, hi⟩ := List.mem_iff_getElem?.1 hf
    rw [getElem?_updateLedger] at hi
    obtain ⟨g, hg, rfl⟩ := Option.map_eq_some_iff.1 hi
    have hfitted := h g (List.mem_of_getElem? hg)
    split
    · exact hfitted.charge c
    · exact hfitted
  · exact fun t c h => h

/-- A file is found for a source exactly if it has the place of the source. -/
theorem fileIndex?_eq_some_iff (hs : Separate s.files) {id : SourceId} {n : Nat} :
    s.fileIndex? id = some n ↔ ∃ f, s.files[n]? = some f ∧ f.revision.id.place = id.place := by
  constructor
  · intro h
    obtain ⟨hn, hplace, -⟩ := List.findIdx?_eq_some_iff_getElem.1 h
    exact ⟨s.files[n], List.getElem?_eq_getElem hn, of_decide_eq_true hplace⟩
  · rintro ⟨f, hf, hplace⟩
    cases hindex : s.fileIndex? id with
    | none => exact absurd hplace (place_ne_of_fileIndex? hindex f (List.mem_of_getElem? hf))
    | some i =>
      obtain ⟨hi, hplace', -⟩ := List.findIdx?_eq_some_iff_getElem.1 hindex
      rw [hs i n s.files[i] f (List.getElem?_eq_getElem hi) hf
        ((of_decide_eq_true hplace').trans hplace.symm)]

/-- A search finds what it found before, or else the file that was added. -/
theorem fileIndex?_addFile_or (s : Session) (r : Revision) (source : String) (bytes : Bytes)
    (m : SiteMap) (id : SourceId) : (s.addFile r source bytes m).fileIndex? id
      = (s.fileIndex? id).or (if r.id.place = id.place then some s.files.length else none) := by
  show (s.files ++ [_]).findIdx? _ = _
  rw [List.findIdx?_append, List.findIdx?_singleton]
  by_cases hplace : r.id.place = id.place
  · simp [hplace, fileIndex?]
  · simp [hplace, fileIndex?]

/-- A search looks at revisions only. -/
theorem fileIndex?_updateLedger (s : Session) (n : Nat) (g : Ledger → Ledger) (id : SourceId) :
    (s.updateLedger n g).fileIndex? id = s.fileIndex? id := by
  have hsearch (files : List CoveredFile) :
      files.findIdx? (fun f => f.revision.id.place = id.place)
        = (files.map (·.revision)).findIdx? fun r => r.id.place = id.place := by
    rw [List.findIdx?_map]
    rfl
  have hrevisions : (s.updateLedger n g).files.map (·.revision) = s.files.map (·.revision) :=
    map_files_updateLedger (fun _ => rfl) s n
  rw [fileIndex?, fileIndex?, hsearch, hrevisions, ← hsearch]

/-! ## A session with an index -/

/-- A session, and the numbers of its files by place. -/
structure Indexed where
  session : Session
  index : List (Place × Nat)

namespace Indexed

/-- A session that tracks no file yet. -/
def start (settings : Settings) (cache : Cache) : Indexed :=
  ⟨.start settings cache, []⟩

/-- The number that the index has for a source. -/
def fileIndex? (x : Indexed) (id : SourceId) : Option Nat :=
  x.index.lookup id.place

/-- Registers a source that the index does not have, and enters it there. -/
def register (e : Surroundings) (x : Indexed) (id : SourceId) : Except Fault Nat × Indexed :=
  match x.fileIndex? id with
  | some n => (.ok n, x)
  | none =>
    if !x.session.tracks id then (.error (.untracked id.text), x)
    else
      match e.content id with
      | .error fault => (.error fault, x)
      | .ok (r, bytes) =>
        let source := Utf8.lossy bytes
        match x.session.mapOf e.engine r source with
        | (.error fault, s) => (.error fault, ⟨s, x.index⟩)
        | (.ok m, s) =>
          (.ok s.files.length,
            ⟨s.addFile r source bytes m, (id.place, s.files.length) :: x.index⟩)

/-- The number of the file of a source, which is registered now if it is its turn. -/
def ensure (e : Surroundings) (x : Indexed) (id : SourceId) : Option Nat × Indexed :=
  match x.fileIndex? id with
  | some n => (some n, x)
  | none =>
    if x.session.failed.contains id.place || !x.session.tracks id then (none, x)
    else
      match x.register e id with
      | (.ok n, y) => (some n, y)
      | (.error _, y) => (none, ⟨y.session.fail id.place, y.index⟩)

/-- A session after a callback that counts in the file that was looked up. -/
def counted (g : Ledger → Ledger) : Option Nat × Indexed → Indexed
  | (some n, x) => ⟨x.session.updateLedger n g, x.index⟩
  | (none, x) => x

/-- The session after a step; what is counted by number does not ask the index. -/
def take (e : Surroundings) (x : Indexed) : Step → Indexed
  | .register id => (x.register e id).2
  | .onLine id line => counted (fun l => l.recordLine line) (x.ensure e id)
  | .onEntry id name line => counted (fun l => (l.recordEntry name line).2) (x.ensure e id)
  | step => ⟨x.session.take e step, x.index⟩

/-- The session after an occurrence. -/
def meet (x : Indexed) : Occurrence → Indexed
  | .asked e step => x.take e step
  | .recached cache => ⟨{ x.session with cache }, x.index⟩

/-- The session after some occurrences. -/
def course (x : Indexed) (os : List Occurrence) : Indexed :=
  os.foldl meet x

/-! ## The index says what a search finds -/

variable {x : Indexed} {e : Surroundings}

/-- The index says what a search through the files finds. -/
def Faithful (x : Indexed) : Prop :=
  ∀ id, x.fileIndex? id = x.session.fileIndex? id

/-- What an indexed session has done is what a plain one has done. -/
structure Follows {α : Type} (found : α × Indexed) (plain : α × Session) : Prop where
  result : found.1 = plain.1
  session : found.2.session = plain.2
  faithful : found.2.Faithful

/-- An index stays faithful to a session in which a search finds the same. -/
theorem Faithful.of_session (h : x.Faithful) {s : Session}
    (hsame : ∀ id, s.fileIndex? id = x.session.fileIndex? id) : Faithful ⟨s, x.index⟩ :=
  fun id => (h id).trans (hsame id).symm

/-- A file that is added at the end is entered with its number. -/
theorem Faithful.addFile (h : x.Faithful) {s : Session} {r : Revision}
    (hfiles : s.files = x.session.files) (hindex : x.session.fileIndex? r.id = none)
    (source : String) (bytes : Bytes) (m : SiteMap) :
    Faithful ⟨s.addFile r source bytes m, (r.id.place, s.files.length) :: x.index⟩ := by
  intro id
  have hsearch : s.fileIndex? id = x.session.fileIndex? id := by
    rw [Session.fileIndex?, hfiles]
    rfl
  rw [fileIndex?_addFile_or, hsearch, ← h id]
  show List.lookup id.place (_ :: _) = _
  rw [List.lookup_cons]
  by_cases hplace : id.place = r.id.place
  · -- Nothing was found at this place before.
    have hnone : x.fileIndex? id = none := by
      rw [fileIndex?, hplace]
      exact (h r.id).trans hindex
    rw [hnone, hplace, beq_self_eq_true, if_pos rfl]
    rfl
  · rw [beq_false_of_ne hplace, if_neg fun heq => hplace heq.symm, Option.or_none]
    rfl

/-- Registering by the index does what registering by a search does. -/
theorem follows_register (h : x.Faithful) (e : Surroundings) (id : SourceId) :
    Follows (x.register e id) (x.session.register e id) := by
  unfold register Session.register
  rw [h id]
  cases hindex : x.session.fileIndex? id with
  | some n => exact ⟨rfl, rfl, h⟩
  | none =>
    -- Until the content is read neither the index nor the files change.
    cases htracks : x.session.tracks id with
    | false => exact ⟨rfl, rfl, h⟩
    | true =>
      cases hcontent : e.content id with
      | error fault => exact ⟨rfl, rfl, h⟩
      | ok found =>
        obtain ⟨r, bytes⟩ := found
        obtain rfl : r.id = id := content_id hcontent
        have hfiles := files_mapOf e.engine x.session r (Utf8.lossy bytes)
        dsimp only [Bool.not_true, Bool.false_eq_true, if_false]
        generalize x.session.mapOf e.engine r (Utf8.lossy bytes) = found at hfiles ⊢
        obtain ⟨fault | m, s⟩ := found
        · refine ⟨rfl, rfl, h.of_session fun id => ?_⟩
          rw [Session.fileIndex?, show s.files = x.session.files from hfiles]
          rfl
        · exact ⟨rfl, rfl, h.addFile hfiles hindex _ bytes m⟩

/-- So does looking a source up. -/
theorem follows_ensure (h : x.Faithful) (e : Surroundings) (id : SourceId) :
    Follows (x.ensure e id) (x.session.ensure e id) := by
  obtain ⟨hresult, hsession, hfaithful⟩ := follows_register h e id
  unfold ensure Session.ensure
  rw [h id]
  cases hindex : x.session.fileIndex? id with
  | some n => exact ⟨rfl, rfl, h⟩
  | none =>
    dsimp only
    split
    · exact ⟨rfl, rfl, h⟩
    · -- A source that is neither found nor failed at is registered by both.
      generalize x.register e id = found at hresult hsession hfaithful
      generalize x.session.register e id = plain at hresult hsession
      obtain ⟨result, y⟩ := found
      obtain ⟨result', s⟩ := plain
      obtain rfl : result = result' := hresult
      obtain rfl : y.session = s := hsession
      cases result with
      | ok n => exact ⟨rfl, rfl, hfaithful⟩
      | error fault => exact ⟨rfl, rfl, hfaithful⟩

/-- What is counted after a look-up does not ask the index. -/
theorem Follows.counted {found : Option Nat × Indexed} {plain : Option Nat × Session}
    (h : Follows found plain) (g : Ledger → Ledger) :
    (counted g found).session = Session.counted g plain ∧ (counted g found).Faithful := by
  obtain ⟨result, y⟩ := found
  obtain ⟨result', s⟩ := plain
  obtain ⟨hresult, hsession, hfaithful⟩ := h
  obtain rfl : result = result' := hresult
  obtain rfl : y.session = s := hsession
  cases result with
  | none => exact ⟨rfl, hfaithful⟩
  | some n => exact ⟨rfl, hfaithful.of_session (fileIndex?_updateLedger y.session n g)⟩

/-- An indexed session takes each step as a plain one does. -/
theorem session_take (h : x.Faithful) (e : Surroundings) (step : Step) :
    (x.take e step).session = x.session.take e step ∧ (x.take e step).Faithful := by
  cases step with
  | register id =>
    obtain ⟨-, hsession, hfaithful⟩ := follows_register h e id
    exact ⟨hsession, hfaithful⟩
  | onLine id line =>
    rw [Session.take, onLine_eq]
    exact (follows_ensure h e id).counted _
  | onEntry id name line =>
    rw [Session.take, onEntry_eq]
    exact (follows_ensure h e id).counted _
  | _ => exact ⟨rfl, h.of_session (fileIndex?_updateLedger x.session _ _)⟩

/-- Along a course the session with an index does what the plain one does, and its index stays
    faithful. -/
theorem session_course (h : x.Faithful) (os : List Occurrence) :
    (x.course os).session = x.session.course os ∧ (x.course os).Faithful := by
  induction os generalizing x with
  | nil => exact ⟨rfl, h⟩
  | cons o rest ih =>
    obtain ⟨hsession, hfaithful⟩ : (x.meet o).session = x.session.meet o
        ∧ (x.meet o).Faithful := by
      cases o with
      | asked e step => exact session_take h e step
      | recached cache => exact ⟨rfl, h⟩
    rw [course_cons, ← hsession]
    exact ih hfaithful

/-- Where no file is tracked nothing is found. -/
theorem faithful_start (settings : Settings) (cache : Cache) : (start settings cache).Faithful :=
  fun _ => rfl

/-! ## Consistency -/

/-- The index says what a search finds and leads to the files, to each under its place and to
    nothing else; no place has two files, and the counters of each file are as many as its map
    asks for. -/
structure Consistent (x : Indexed) : Prop where
  faithful : x.Faithful
  index : ∀ id n, x.fileIndex? id = some n
    ↔ ∃ f, x.session.files[n]? = some f ∧ f.revision.id.place = id.place
  separate : Separate x.session.files
  fitted : x.session.Fitted

/-- Whatever course a session takes, its index, its files and their counters agree. -/
theorem consistent_course (settings : Settings) (cache : Cache) (os : List Occurrence) :
    ((start settings cache).course os).Consistent := by
  obtain ⟨hsession, hfaithful⟩ := session_course (faithful_start settings cache) os
  have hseparate : Separate ((start settings cache).course os).session.files := by
    rw [hsession]
    exact separate_course separate_nil os
  refine ⟨hfaithful, fun id n => ?_, hseparate, ?_⟩
  · rw [hfaithful id, fileIndex?_eq_some_iff hseparate]
  · rw [hsession]
    exact fitted_course (fun f hf => absurd hf List.not_mem_nil) os

/-- Whoever is in the index is not registered again. -/
theorem register_of_some {id : SourceId} {n : Nat} (h : x.fileIndex? id = some n)
    (e : Surroundings) : x.register e id = (.ok n, x) := by
  rw [register, h]

/-- Whatever a session meets, its registry is consistent: with and without the index it does the
    same, and what was registered once stays as it was, under its number, for every spelling of
    its source and in all surroundings. -/
theorem registry_consistent (settings : Settings) (cache : Cache) (os : List Occurrence) :
    ((start settings cache).course os).session = (Session.start settings cache).course os
      ∧ ((start settings cache).course os).Consistent
      ∧ (∀ e id n f, ((start settings cache).course os).session.files[n]? = some f →
        f.revision.id.place = id.place →
        ((start settings cache).course os).register e id
            = (.ok n, (start settings cache).course os)
          ∧ ((Session.start settings cache).course os).register e id
            = (.ok n, (Session.start settings cache).course os))
      ∧ ∀ more, ((start settings cache).course os).session.Extends
        ((start settings cache).course (os ++ more)).session := by
  obtain ⟨hsession, hfaithful⟩ := session_course (faithful_start settings cache) os
  have hconsistent := consistent_course settings cache os
  refine ⟨hsession, hconsistent, fun e id n f hf hplace => ?_, fun more => ?_⟩
  · have hfound := (hconsistent.index id n).2 ⟨f, hf, hplace⟩
    have hindexed := register_of_some hfound e
    obtain ⟨hresult, hkept, -⟩ := follows_register hfaithful e id
    rw [hindexed, hsession] at hresult hkept
    exact ⟨hindexed, Prod.ext hresult.symm hkept.symm⟩
  · rw [hsession, (session_course (faithful_start settings cache) (os ++ more)).1, course_append]
    exact extends_course _ more

/-- One script in a directory. -/
def nestedScript : Surroundings :=
  { Host.oneScript with
    workspace := ⟨["work"],
      [(["work", "d"], .directory), (["work", "d", "a.js"], .file (.plain [10]) 5000)], 0⟩ }

/-- A cache that has a map of the script. -/
def nestedCache : Cache :=
  (Cache.inMemory.save ⟨.file "d/a.js", .modified 0 5⟩ Host.oneFunction).toOption.getD .inMemory

/-- The script is met, and then the cache is lost. -/
def metAndLost : List Occurrence :=
  [.asked nestedScript (.onLine (.file "d/a.js") 1), .recached .inMemory]

/-- A spelling that is not tracked by itself leads to the script, even where that is gone. -/
theorem registry_consistent_respelled :
    ((start ⟨["d/a"], none⟩ nestedCache).course metAndLost).session.tracks (.file "d//a.js") = false
      ∧ (Host.oneScript.content (.file "d//a.js")).toOption = none
      ∧ ((start ⟨["d/a"], none⟩ nestedCache).course metAndLost).register Host.oneScript
          (.file "d//a.js")
        = (.ok 0, (start ⟨["d/a"], none⟩ nestedCache).course metAndLost) := by
  have hfound : (((start ⟨["d/a"], none⟩ nestedCache).course metAndLost).session.files[0]?).map
      (·.revision.id) = some (.file "d/a.js") := by decide +kernel
  obtain ⟨f, hf, hid⟩ := Option.map_eq_some_iff.1 hfound
  obtain ⟨-, -, hregister, -⟩ := registry_consistent ⟨["d/a"], none⟩ nestedCache metAndLost
  have hplace : f.revision.id.place = (SourceId.file "d//a.js").place := by
    rw [hid]
    decide +kernel
  exact ⟨by decide +kernel, by decide +kernel,
    (hregister Host.oneScript (.file "d//a.js") 0 f hf hplace).1⟩

end Indexed
end Session
end Coverage
