/-
  Coverage.Proofs.Session.Counts

  No event is lost, counted twice, or charged to another file.

  A step may admit one new file, and then charges something to the files that are there
  (`take_files`); what it charges to a file is told by the number and the place of the file
  alone (`Step.charge?`), since no two files have one place.  So at the end of a run the
  ledger of a file is what the steps since its registration charge to it, by induction on the
  steps (`run_charged`), and its counters are numbers of steps (`run_counts`).
-/

import Coverage.Proofs.Hits.Charges
import Coverage.Proofs.Session.Separate

namespace Coverage

open SourceId (Place)
open Ledger (Charge charge charged findsFunction)

namespace Session

/-! ## What a step charges -/

namespace Step

/-- What a step charges to the file with a number and a place. -/
def charge? (n : Nat) (p : Place) : Step → Option Charge
  | .register _ => none
  | .onLine id line => if id.place = p then some (.line line) else none
  | .onEntry id name line => if id.place = p then some (.entry name line) else none
  | .countLine file line => if file = n then some (.line line) else none
  | .countExit file line index => if file = n then some (.exit line index) else none
  | .countCall file key => if file = n then some (.call key) else none
  | .countEntry file name line => if file = n then some (.entry name line) else none

/-- Whether the engine reports that a line of a source is run. -/
def reportsLine (id : SourceId) (line : Nat) : Step → Bool
  | .onLine other l => other.place = id.place && l = line
  | _ => false

/-- Whether a line is counted in the file with a number. -/
def countsLine (n line : Nat) : Step → Bool
  | .countLine file l => file = n && l = line
  | _ => false

/-- Whether an exit is counted in the file with a number. -/
def countsExit (n line index : Nat) : Step → Bool
  | .countExit file l i => file = n && l = line && i = index
  | _ => false

/-- Whether a function is entered or called that a map has, in a source or in the file with a
    number. -/
def callsFunction (n : Nat) (id : SourceId) (m : SiteMap) : Step → Bool
  | .onEntry other name line => other.place = id.place && findsFunction m (.entry name line)
  | .countEntry file name line => file = n && findsFunction m (.entry name line)
  | .countCall file key => file = n && findsFunction m (.call key)
  | _ => false

section

variable (n : Nat) (id : SourceId) (xs : List Step)

/-- A line is charged by the engine or through the number of the file, never by both. -/
theorem count_line (line : Nat) :
    (xs.filterMap (charge? n id.place)).count (.line line)
      = xs.countP (·.reportsLine id line) + xs.countP (·.countsLine n line) := by
  rw [List.count_filterMap]
  induction xs with
  | nil => rfl
  | cons x rest ih =>
    have hone : (if x.charge? n id.place == some (.line line) then 1 else 0)
        = (if x.reportsLine id line then 1 else 0) + if x.countsLine n line then 1 else 0 := by
      cases x <;> simp [charge?, reportsLine, countsLine, ite_and]
    rw [List.countP_cons, List.countP_cons, List.countP_cons, ih, hone]
    omega

/-- Charges for an exit are the steps that count it in the file with the number. -/
theorem count_exit (line index : Nat) :
    (xs.filterMap (charge? n id.place)).count (.exit line index)
      = xs.countP (·.countsExit n line index) := by
  rw [List.count_filterMap]
  refine List.countP_congr fun x _ => ?_
  cases x <;> simp [charge?, countsExit, and_assoc]

/-- Charges that find a function are the steps that call one of the map. -/
theorem countP_findsFunction (m : SiteMap) :
    (xs.filterMap (charge? n id.place)).countP (findsFunction m)
      = xs.countP (·.callsFunction n id m) := by
  rw [List.countP_filterMap]
  refine List.countP_congr fun x _ => ?_
  have hcall (hit : Prop) [Decidable hit] (c : Charge) :
      (((if hit then some c else none).map (findsFunction m)).getD false = true)
        ↔ hit ∧ findsFunction m c = true := by
    split
    · simp [*]
    · simp [*]
  -- Neither a line nor an exit finds a function.
  have hnone (c : Charge) (h : (∃ l, c = .line l) ∨ ∃ l i, c = .exit l i) :
      findsFunction m c = false := by
    rcases h with ⟨l, rfl⟩ | ⟨l, i, rfl⟩
    · rfl
    · rfl
  cases x with
  | register other => rfl
  | onLine other line =>
    simp only [charge?, hcall, callsFunction, hnone (.line line) (.inl ⟨_, rfl⟩),
      Bool.false_eq_true, and_false]
  | countLine file line => simp only [charge?, hcall, callsFunction,
      hnone (.line line) (.inl ⟨_, rfl⟩), Bool.false_eq_true, and_false]
  | countExit file line index => simp only [charge?, hcall, callsFunction,
      hnone (.exit line index) (.inr ⟨_, _, rfl⟩), Bool.false_eq_true, and_false]
  | _ => simp only [charge?, hcall, callsFunction, Bool.and_eq_true, decide_eq_true_eq]

end

/-- The file with a number, with what a step charges to it. -/
def settle (x : Step) (n : Nat) (f : CoveredFile) : CoveredFile :=
  { f with ledger := ((x.charge? n f.revision.id.place).map f.ledger.charge).getD f.ledger }

theorem settle_revision (x : Step) (n : Nat) (f : CoveredFile) :
    (x.settle n f).revision = f.revision := rfl

/-- A step that charges nothing to a file leaves it as it is. -/
theorem settle_of_none {x : Step} {n : Nat} {f : CoveredFile}
    (h : x.charge? n f.revision.id.place = none) : x.settle n f = f := by
  rw [settle, h]
  rfl

end Step

variable {e : Surroundings} {s : Session} {n : Nat} {f : CoveredFile}

/-- No two files have one place. -/
def Separate (files : List CoveredFile) : Prop :=
  ∀ (i j : Nat) (f g : CoveredFile), files[i]? = some f → files[j]? = some g →
    f.revision.id.place = g.revision.id.place → i = j

/-- The files of a session, perhaps with one more, in which nothing is counted and whose place
    no other file has. -/
def Admits (s : Session) (files : List CoveredFile) : Prop :=
  files = s.files ∨ ∃ f m, files = s.files ++ [f] ∧ f.ledger = .ofMap m
    ∧ ∀ g ∈ s.files, g.revision.id.place ≠ f.revision.id.place

theorem separate_nil : Separate [] := by
  intro i j f g hf
  cases hf

/-- A file with a place of its own may be added. -/
theorem Separate.append {files : List CoveredFile} (h : Separate files)
    (hnew : ∀ g ∈ files, g.revision.id.place ≠ f.revision.id.place) : Separate (files ++ [f]) := by
  have hlast (k : Nat) (g : CoveredFile) (hg : [f][k]? = some g) : k = 0 ∧ g = f := by
    rw [List.getElem?_singleton] at hg
    split at hg
    · rename_i hk
      exact ⟨hk, (Option.some.inj hg).symm⟩
    · cases hg
  intro i j a b ha hb hplace
  -- Two files of one place are both old or both new, or else one is the new file and the other has
  -- its place.
  rw [List.getElem?_append] at ha hb
  split at ha
  · split at hb
    · exact h i j a b ha hb hplace
    · obtain ⟨-, rfl⟩ := hlast _ _ hb
      exact absurd hplace (hnew a (List.mem_of_getElem? ha))
  · obtain ⟨hi, rfl⟩ := hlast _ _ ha
    split at hb
    · exact absurd hplace.symm (hnew b (List.mem_of_getElem? hb))
    · obtain ⟨hj, -⟩ := hlast _ _ hb
      omega

/-- A file is known by its place. -/
theorem Separate.eq_of_place {files : List CoveredFile} (h : Separate files) {g : CoveredFile}
    (hf : f ∈ files) (hg : g ∈ files) (hplace : f.revision.id.place = g.revision.id.place) :
    f = g := by
  obtain ⟨i, hi⟩ := List.mem_iff_getElem?.1 hf
  obtain ⟨j, hj⟩ := List.mem_iff_getElem?.1 hg
  rw [h i j f g hi hj hplace, hj] at hi
  exact (Option.some.inj hi).symm

/-- Where a file is admitted, all places are still different. -/
theorem Admits.separate {files : List CoveredFile} (h : s.Admits files) (hs : Separate s.files) :
    Separate files := by
  rcases h with rfl | ⟨f, m, rfl, -, hnew⟩
  · exact hs
  · exact hs.append hnew

/-! ## Admission -/

/-- A source without a file has a place that no file has. -/
theorem place_ne_of_fileIndex? {id : SourceId} (h : s.fileIndex? id = none) :
    ∀ g ∈ s.files, g.revision.id.place ≠ id.place := by
  intro g hg
  simpa using List.findIdx?_eq_none_iff.1 h g hg

/-- A registration that succeeds may admit a file, and one that fails does not. -/
theorem register_cases (e : Surroundings) (s : Session) (id : SourceId) :
    ((∃ fault, (s.register e id).1 = .error fault) ∧ (s.register e id).2.files = s.files)
      ∨ ((∃ n, (s.register e id).1 = .ok n) ∧ s.Admits (s.register e id).2.files) := by
  -- One case for each way in which a registration ends, in the order in which they are tried.
  unfold register
  split
  · exact .inr ⟨⟨_, rfl⟩, .inl rfl⟩
  · rename_i hindex
    split
    · exact .inl ⟨⟨_, rfl⟩, rfl⟩
    · split
      · exact .inl ⟨⟨_, rfl⟩, rfl⟩
      · rename_i r bytes hcontent
        obtain rfl : r.id = id := content_id hcontent
        have hfiles := files_mapOf e.engine s r (Text.Utf8.lossy bytes)
        -- Whatever is surveyed or written to the cache, the files stay as they were.
        dsimp only
        generalize mapOf e.engine s r (Text.Utf8.lossy bytes) = found at hfiles ⊢
        obtain ⟨fault | m, t⟩ := found
        · exact .inl ⟨⟨fault, rfl⟩, hfiles⟩
        · refine .inr ⟨⟨_, rfl⟩, .inr ⟨⟨r, Text.Utf8.lossy bytes, bytes, .ofMap m⟩, m, ?_, rfl,
            place_ne_of_fileIndex? hindex⟩⟩
          show t.files ++ _ = _
          rw [show t.files = s.files from hfiles]

/-- A registration that fails leaves the files as they are. -/
theorem files_register_error {id : SourceId} {fault : Fault}
    (h : (s.register e id).1 = .error fault) : (s.register e id).2.files = s.files := by
  rcases register_cases e s id with ⟨-, hfiles⟩ | ⟨⟨n, hok⟩, -⟩
  · exact hfiles
  · rw [h] at hok
    cases hok

theorem admits_register (e : Surroundings) (s : Session) (id : SourceId) :
    s.Admits (s.register e id).2.files := by
  rcases register_cases e s id with ⟨-, hfiles⟩ | ⟨-, hadmits⟩
  · exact .inl hfiles
  · exact hadmits

theorem admits_ensure (e : Surroundings) (s : Session) (id : SourceId) :
    s.Admits (s.ensure e id).2.files := by
  have hregister := admits_register e s id
  unfold ensure
  split
  · exact .inl rfl
  · split
    · exact .inl rfl
    · split
      · rename_i t hok
        rw [hok] at hregister
        exact hregister
      · rename_i t herror
        rw [herror] at hregister
        exact hregister

/-! ## Counting -/

/-- The ledger of one file is changed, and no other file is. -/
theorem getElem?_updateLedger (s : Session) (file : Nat) (g : Ledger → Ledger) (n : Nat) :
    (s.updateLedger file g).files[n]?
      = s.files[n]?.map fun t => if file = n then { t with ledger := g t.ledger } else t :=
  List.getElem?_modify ..

/-- Whoever counts at a place counts in the one file that has it. -/
theorem getElem?_countAt (hs : Separate s.files) (id : SourceId) (g : Ledger → Ledger) (n : Nat) :
    (s.countAt id g).files[n]? = s.files[n]?.map fun t =>
      if id.place = t.revision.id.place then { t with ledger := g t.ledger } else t := by
  unfold countAt
  cases hindex : s.fileIndex? id with
  | none =>
    show s.files[n]? = _
    cases hf : s.files[n]? with
    | none => rfl
    | some f =>
      have hne := place_ne_of_fileIndex? hindex f (List.mem_of_getElem? hf)
      rw [Option.map_some, if_neg hne.symm]
  | some file =>
    show (s.updateLedger file g).files[n]? = _
    rw [getElem?_updateLedger]
    cases hf : s.files[n]? with
    | none => rfl
    | some f =>
      obtain ⟨hfile, hplace, -⟩ := List.findIdx?_eq_some_iff_getElem.1 hindex
      rw [decide_eq_true_eq] at hplace
      rw [Option.map_some, Option.map_some]
      -- The file that was found is the only one at the place.
      by_cases hn : file = n
      · subst hn
        obtain ⟨-, rfl⟩ := List.getElem?_eq_some_iff.1 hf
        rw [if_pos rfl, if_pos hplace.symm]
      · have hother : id.place ≠ f.revision.id.place := fun heq =>
          hn (hs file n _ f (List.getElem?_eq_getElem hfile) hf (hplace.trans heq))
        rw [if_neg hn, if_neg hother]

/-- A step may admit a file, and then charges what it charges to every file by itself. -/
theorem take_files (hs : Separate s.files) (e : Surroundings) (x : Step) :
    ∃ files, s.Admits files ∧ ∀ n, (s.take e x).files[n]? = files[n]?.map (x.settle n) := by
  -- A callback may admit a file first, and then charges the one of its source.
  have hcallback (y : Event) (c : Charge) (hcount : y.count = fun l => l.charge c)
      (hcharge : ∀ n p, y.step.charge? n p = if y.id.place = p then some c else none) :
      ∃ files, s.Admits files
        ∧ ∀ n, (s.take e y.step).files[n]? = files[n]?.map (y.step.settle n) := by
    have hadmits := admits_ensure e s y.id
    rw [ensure_eq] at hadmits
    refine ⟨_, hadmits, fun n => ?_⟩
    rw [take_step, getElem?_countAt (hadmits.separate hs), hcount]
    congr 1
    funext t
    rw [Step.settle, hcharge]
    split
    · rfl
    · rfl
  -- A step that names a file by its number admits none.
  have hhandle (file : Nat) (c : Charge) (hcharge : ∀ n p, x.charge? n p
        = if file = n then some c else none)
      (htake : s.take e x = s.updateLedger file fun l => l.charge c) :
      ∃ files, s.Admits files ∧ ∀ n, (s.take e x).files[n]? = files[n]?.map (x.settle n) := by
    refine ⟨s.files, .inl rfl, fun n => ?_⟩
    rw [htake, getElem?_updateLedger]
    congr 1
    funext t
    rw [Step.settle, hcharge]
    split
    · rfl
    · rfl
  cases x with
  | register id =>
    refine ⟨_, admits_register e s id, fun n => ?_⟩
    have hkept : (Step.register id).settle n = fun f => f :=
      funext fun f => Step.settle_of_none rfl
    rw [hkept, Option.map_id']
    rfl
  | onLine id line => exact hcallback (.line id line) (.line line) rfl fun _ _ => rfl
  | onEntry id name line =>
    exact hcallback (.entry id name line) (.entry name line) rfl fun _ _ => rfl
  | countLine file line => exact hhandle file (.line line) (fun _ _ => rfl) rfl
  | countExit file line index => exact hhandle file (.exit line index) (fun _ _ => rfl) rfl
  | countCall file key => exact hhandle file (.call key) (fun _ _ => rfl) rfl
  | countEntry file name line => exact hhandle file (.entry name line) (fun _ _ => rfl) rfl

/-! ## Steps that count nothing -/

/-- A step for a source that is not tracked, or has failed before or fails now, or for a file
    that is not there. -/
def Idle (e : Surroundings) (s : Session) : Step → Prop
  | .register id => ∃ fault, (s.register e id).1 = .error fault
  | .onLine id _ | .onEntry id _ _ =>
    s.fileIndex? id = none ∧ (s.tracks id = false ∨ id.place ∈ s.failed
      ∨ ∃ fault, (s.register e id).1 = .error fault)
  | .countLine file _ | .countExit file _ _ | .countCall file _ | .countEntry file _ _ =>
    s.files.length ≤ file

/-- Where a source cannot be registered, a callback has no file to count in. -/
theorem ensure_of_idle {id : SourceId} (hindex : s.fileIndex? id = none)
    (h : s.tracks id = false ∨ id.place ∈ s.failed ∨ ∃ fault, (s.register e id).1 = .error fault) :
    (s.ensure e id).1 = none ∧ (s.ensure e id).2.files = s.files := by
  unfold ensure
  rw [hindex]
  dsimp only
  split
  · exact ⟨rfl, rfl⟩
  · rename_i hturn
    obtain ⟨fault, hfault⟩ : ∃ fault, (s.register e id).1 = .error fault := by
      rcases h with htracks | hfailed | hfault
      · simp [htracks] at hturn
      · simp [hfailed] at hturn
      · exact hfault
    have hfiles := files_register_error hfault
    generalize s.register e id = found at hfault hfiles ⊢
    obtain ⟨result, t⟩ := found
    obtain rfl : result = .error fault := hfault
    exact ⟨rfl, hfiles⟩

/-- Where there is no file with a number, nothing is changed. -/
theorem updateLedger_of_le {file : Nat} (h : s.files.length ≤ file) (g : Ledger → Ledger) :
    (s.updateLedger file g).files = s.files :=
  List.modify_eq_self h

/-- A step that has no file leaves all files as they are. -/
theorem files_take_of_idle {x : Step} (h : s.Idle e x) : (s.take e x).files = s.files := by
  -- A callback whose source has no file and gets none counts nothing.
  have hcallback (id : SourceId) (g : Ledger → Ledger) (hindex : s.fileIndex? id = none)
      (hidle : s.tracks id = false ∨ id.place ∈ s.failed
        ∨ ∃ fault, (s.register e id).1 = .error fault) :
      (counted g (s.ensure e id)).files = s.files := by
    obtain ⟨hnone, hfiles⟩ := ensure_of_idle hindex hidle
    generalize s.ensure e id = found at hnone hfiles ⊢
    obtain ⟨n, t⟩ := found
    obtain rfl : n = none := hnone
    exact hfiles
  cases x with
  | register id =>
    obtain ⟨fault, hfault⟩ := h
    exact files_register_error hfault
  | onLine id line =>
    rw [take, onLine_eq]
    exact hcallback id _ h.1 h.2
  | onEntry id name line =>
    rw [take, onEntry_eq]
    exact hcallback id _ h.1 h.2
  | countLine file line => exact updateLedger_of_le h _
  | countExit file line index => exact updateLedger_of_le h _
  | countCall file key => exact updateLedger_of_le h _
  | countEntry file name line => exact updateLedger_of_le h _

/-! ## What one step does to a file -/

/-- After any step all places are still different. -/
theorem separate_take (hs : Separate s.files) (e : Surroundings) (x : Step) :
    Separate (s.take e x).files := by
  obtain ⟨files, hadmits, hfiles⟩ := take_files hs e x
  have hfound (k : Nat) (f : CoveredFile) (hf : (s.take e x).files[k]? = some f) :
      ∃ g, files[k]? = some g ∧ g.revision = f.revision := by
    rw [hfiles] at hf
    obtain ⟨g, hg, rfl⟩ := Option.map_eq_some_iff.1 hf
    exact ⟨g, hg, rfl⟩
  intro i j a b ha hb hplace
  obtain ⟨a', ha', hrevision⟩ := hfound i a ha
  obtain ⟨b', hb', hrevision'⟩ := hfound j b hb
  exact hadmits.separate hs i j a' b' ha' hb' (by rw [hrevision, hrevision', hplace])

/-- A file that is there gets what the step charges to it. -/
theorem getElem?_take (hs : Separate s.files) (hf : s.files[n]? = some f) (e : Surroundings)
    (x : Step) : (s.take e x).files[n]? = some (x.settle n f) := by
  obtain ⟨files, hadmits, hfiles⟩ := take_files hs e x
  have hold : files[n]? = some f := by
    rcases hadmits with rfl | ⟨g, m, rfl, -, -⟩
    · exact hf
    · rw [List.getElem?_append_left (List.getElem?_eq_some_iff.1 hf).1]
      exact hf
  rw [hfiles, hold, Option.map_some]

/-- A file that is new has what the step charges to it, and nothing else. -/
theorem getElem?_take_new (hs : Separate s.files) (hn : s.files.length ≤ n) {x : Step}
    (hf : (s.take e x).files[n]? = some f) :
    ∃ m, f.ledger = charged m (x.charge? n f.revision.id.place).toList := by
  obtain ⟨files, hadmits, hfiles⟩ := take_files hs e x
  rw [hfiles] at hf
  obtain ⟨g, hg, rfl⟩ := Option.map_eq_some_iff.1 hf
  -- A file with a new number is the one that was admitted, with nothing counted before.
  rcases hadmits with rfl | ⟨new, m, rfl, hledger, -⟩
  · rw [List.getElem?_eq_none hn] at hg
    cases hg
  · rw [List.getElem?_append_right hn, List.getElem?_singleton] at hg
    split at hg
    · cases hg
      refine ⟨m, ?_⟩
      rw [Step.settle_revision, Step.settle, hledger]
      cases x.charge? n g.revision.id.place with
      | none => rfl
      | some c => rfl
    · cases hg

end Session

/-! ## Runs -/

namespace Host

open Session (Separate)

/-- What a step asks of the session. -/
def Step.asked? : Step → Option Session.Step
  | .ask step => some step
  | _ => none

/-- Whether a step ends the session. -/
def Step.restarts : Step → Bool
  | .restart .. => true
  | _ => false

/-- What was asked of the session since the file with a number was registered, beginning with
    the step that registered it. -/
def askedSince (n : Nat) : Host → List Step → List Session.Step
  | _, [] => []
  | h, x :: rest =>
    if n < (h.take x).session.files.length then (x :: rest).filterMap Step.asked?
    else askedSince n (h.take x) rest

variable {h : Host} {n : Nat} {f : CoveredFile}

/-- What happens around a session changes no file of it. -/
theorem files_take {x : Step} (hx : x.restarts = false) :
    (h.take x).session.files
      = (x.asked?.map fun step => (h.session.take h.surroundings step).files).getD
        h.session.files := by
  cases x with
  | restart settings next => cases hx
  | _ => rfl

/-- After any step of a host all places are still different. -/
theorem separate_take (hs : Separate h.session.files) {x : Step} (hx : x.restarts = false) :
    Separate (h.take x).session.files := by
  rw [files_take hx]
  cases x.asked? with
  | none => exact hs
  | some step => exact Session.separate_take hs h.surroundings step

/-- A file that is there gets what is charged to it by all that is asked. -/
theorem run_kept (hs : Separate h.session.files) (hf : h.session.files[n]? = some f)
    {steps : List Step} (hsteps : ∀ x ∈ steps, x.restarts = false) :
    (h.run steps).session.files[n]? = some { f with ledger :=
      ((steps.filterMap Step.asked?).filterMap
        (Session.Step.charge? n f.revision.id.place)).foldl charge f.ledger } := by
  induction steps generalizing h f with
  | nil => exact hf
  | cons x rest ih =>
    obtain ⟨hx, hrest⟩ := List.forall_mem_cons.1 hsteps
    have hnext := files_take (h := h) hx
    cases hasked : x.asked? with
    | none =>
      rw [hasked] at hnext
      rw [List.filterMap_cons_none hasked]
      exact ih (separate_take hs hx) (hnext ▸ hf) hrest
    -- The step charges the file once, and the rest go on from there.
    | some step =>
      rw [hasked] at hnext
      have hsettled : (h.take x).session.files[n]? = some (step.settle n f) := by
        rw [hnext]
        exact Session.getElem?_take hs hf h.surroundings step
      rw [List.filterMap_cons_some hasked, List.filterMap_cons]
      refine (ih (separate_take hs hx) hsettled hrest).trans ?_
      rw [Session.Step.settle_revision, Session.Step.settle]
      cases step.charge? n f.revision.id.place with
      | none => rfl
      | some c => rfl

/-- The ledger of a file is what was charged to it since it was registered. -/
theorem run_charged (hs : Separate h.session.files) (hn : h.session.files.length ≤ n)
    {steps : List Step} (hsteps : ∀ x ∈ steps, x.restarts = false)
    (hf : (h.run steps).session.files[n]? = some f) :
    ∃ m, f.ledger = charged m ((h.askedSince n steps).filterMap
      (Session.Step.charge? n f.revision.id.place)) := by
  induction steps generalizing h with
  | nil =>
    have hnone : h.session.files[n]? = none := List.getElem?_eq_none hn
    rw [show h.session.files[n]? = some f from hf] at hnone
    cases hnone
  | cons x rest ih =>
    obtain ⟨hx, hrest⟩ := List.forall_mem_cons.1 hsteps
    rw [askedSince]
    split
    · -- The file is new with this step, and gets what the rest charges to it.
      rename_i hnew
      obtain ⟨first, hfirst⟩ : ∃ g, (h.take x).session.files[n]? = some g :=
        ⟨_, List.getElem?_eq_getElem hnew⟩
      have hnext := files_take (h := h) hx
      cases hasked : x.asked? with
      | none =>
        rw [hasked] at hnext
        rw [hnext] at hnew
        exact absurd hnew (Nat.not_lt.2 hn)
      | some step =>
        rw [hasked] at hnext
        have hlast := run_kept (separate_take hs hx) hfirst hrest
        rw [show (h.run (x :: rest)) = (h.take x).run rest from rfl, hlast] at hf
        obtain rfl := Option.some.inj hf
        obtain ⟨m, hm⟩ := Session.getElem?_take_new (e := h.surroundings) (x := step) hs hn
          (hnext ▸ hfirst)
        refine ⟨m, ?_⟩
        rw [List.filterMap_cons_some hasked, List.filterMap_cons]
        dsimp only
        rw [hm]
        cases step.charge? n first.revision.id.place with
        | none => rfl
        | some c => rfl
    · rename_i hold
      exact ih (separate_take hs hx) (Nat.le_of_not_lt hold) hrest hf

/-- The counters of a file say how often each of its sites was hit by some steps, however it
    was named there. -/
structure Accounted (own : List Session.Step) (n : Nat) (f : CoveredFile) : Prop where
  lines : ∀ line, f.ledger.lineHits line
    = own.countP (·.reportsLine f.revision.id line) + own.countP (·.countsLine n line)
  exits : ∀ line index, f.ledger.counters.exits.count (line, index)
    = own.countP (·.countsExit n line index)
  calls : (f.ledger.functionHits.map Prod.snd).sum
    = own.countP (·.callsFunction n f.revision.id f.ledger.map)

/-- A file that was charged with some steps is accounted for by them. -/
theorem accounted_charged {own : List Session.Step} {m : SiteMap}
    (h : f.ledger
      = charged m (own.filterMap (Session.Step.charge? n f.revision.id.place))) :
    Accounted own n f where
  lines := fun line => by
    rw [h, Ledger.lineHits_charged, Session.Step.count_line]
  exits := fun line index => by
    rw [h, Ledger.exits_charged, Session.Step.count_exit]
  calls := by
    rw [h, Ledger.calls_charged, Ledger.map_charged, Session.Step.countP_findsFunction]

/-- Whatever happens during a session, each of its files is accounted for by what was asked
    since its registration; and a step that has no file changes none. -/
theorem run_counts {e : Surroundings} {settings : Session.Settings} {cache : Cache}
    {steps : List Step} (hsteps : ∀ x ∈ steps, x.restarts = false) :
    (∀ n f, (run ⟨e, .start settings cache⟩ steps).session.files[n]? = some f →
        Accounted (askedSince n ⟨e, .start settings cache⟩ steps) n f)
      ∧ ∀ (e : Surroundings) (s : Session) (x : Session.Step), s.Idle e x →
        (s.take e x).files = s.files := by
  refine ⟨fun n f hf => ?_, fun e s x hidle => Session.files_take_of_idle hidle⟩
  obtain ⟨m, hm⟩ := run_charged (h := ⟨e, .start settings cache⟩) Session.separate_nil
    (Nat.zero_le n) hsteps hf
  exact accounted_charged hm

/-- A map with one function. -/
def oneFunction : SiteMap :=
  ⟨[1, 2], [], [⟨"f:1:0", 1, 2, some 2⟩]⟩

/-- A session that finds this map in its cache. -/
def cachedScript : Host :=
  ⟨oneScript, .start ⟨["/a"], none⟩ <|
    (Cache.inMemory.save ⟨.file "/a.js", .modified 0 5⟩ oneFunction).toOption.getD .inMemory⟩

/-- Steps before, with and after the registration of a script, some of them for other files and
    for functions that are not there. -/
def lateStart : List Step :=
  [.ask (.countLine 0 1), .ask (.onLine (.file "/a.js") 1), .ask (.onLine (.file "b.js") 1),
    .writeFile "/a.js" [32] 0, .ask (.countLine 0 1), .ask (.countLine 1 1),
    .ask (.countExit 0 3 0), .ask (.onEntry (.file "/a.js") none 2),
    .ask (.countCall 0 "f:1:0"), .ask (.countCall 0 "g:1:0")]

/-- The script is charged with what comes after its registration, once under its number and once
    under its path. -/
theorem run_counts_lateStart :
    (∃ f, (cachedScript.run lateStart).session.files[0]? = some f
      ∧ f.ledger.lineHits 1 = 2 ∧ f.ledger.counters.exits.count (3, 0) = 1
      ∧ (f.ledger.functionHits.map Prod.snd).sum = 2)
      ∧ (cachedScript.session.take oneScript (.onLine (.file "b.js") 1)).files = [] := by
  have hsteps : ∀ x ∈ lateStart, x.restarts = false := by decide
  obtain ⟨hfiles, hidle⟩ :
      (∀ n f, (cachedScript.run lateStart).session.files[n]? = some f →
        Accounted (askedSince n cachedScript lateStart) n f)
        ∧ ∀ (e : Surroundings) (s : Session) (x : Session.Step), s.Idle e x →
          (s.take e x).files = s.files := run_counts hsteps
  have hfound : ((cachedScript.run lateStart).session.files[0]?).map
      (fun f => (f.revision.id, f.ledger.map)) = some (.file "/a.js", oneFunction) := by
    decide +kernel
  obtain ⟨f, hf, hparts⟩ := Option.map_eq_some_iff.1 hfound
  obtain ⟨hid, hmap⟩ := Prod.mk.inj hparts
  obtain ⟨hlines, hexits, hcalls⟩ := hfiles 0 f hf
  rw [hid] at hlines hcalls
  rw [hmap] at hcalls
  refine ⟨⟨f, hf, ?_, ?_, ?_⟩, hidle _ _ _ ⟨by decide, .inl (by decide)⟩⟩
  · rw [hlines]
    decide +kernel
  · rw [hexits]
    decide +kernel
  · rw [hcalls]
    decide +kernel

end Host
end Coverage
