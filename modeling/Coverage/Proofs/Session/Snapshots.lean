/-
  Coverage.Proofs.Session.Snapshots

  What the snapshots of a report hold.

  A snapshot is kept under names that are made from the identity of its file and leave out steps
  in place, steps upwards and empty parts; so files of different identities may share one path.
  Once a snapshot has been written, its directory and its path stay open for every later file
  with these names (`Ready`), which replaces it; in the end the path holds the bytes of the last
  of them (`holder`, `read_snapshot`).  So a section leads to what was read of its file exactly
  if that is what was read of the last one, which no other file can be where the identities are
  plain.
-/

import Coverage.Proofs.Session.Registry
import Coverage.Proofs.Session.Reports
import Coverage.Proofs.Workspace.Growth

namespace Coverage

namespace Report

open Workspace (placeOf Grows)

variable {directory path named : String} {w w' : Workspace} {files : List CoveredFile}
  {f g : CoveredFile}

/-! ## Files that share a path -/

/-- Two files have the same names for their snapshots. -/
def SharesNames (f g : CoveredFile) : Prop :=
  f.revision.id.snapshotNames = g.revision.id.snapshotNames

instance (f g : CoveredFile) : Decidable (SharesNames f g) :=
  inferInstanceAs (Decidable (_ = _))

/-- Files with the same names have their snapshots at one path. -/
theorem SharesNames.snapshotPath_eq (h : SharesNames f g) (directory : String) :
    snapshotPath directory f = snapshotPath directory g := by
  rw [snapshotPath, snapshotPath, SourceId.snapshotPath, SourceId.snapshotPath, h]

theorem SharesNames.snapshotDirectory_eq (h : SharesNames f g) (directory : String) :
    snapshotDirectory directory f = snapshotDirectory directory g := by
  rw [snapshotDirectory, snapshotDirectory, h]

/-- Files with different names have different places, whatever the directory is. -/
theorem sharesNames_of_place
    (h : placeOf w.base (snapshotPath directory f) = placeOf w.base (snapshotPath directory g)) :
    SharesNames f g := by
  rw [placeOf_snapshotPath, placeOf_snapshotPath] at h
  exact List.append_cancel_left h

/-- The last of some files with the same names as a file; if there is none, the file itself. -/
def holder (files : List CoveredFile) (f : CoveredFile) : CoveredFile :=
  (files.filter fun g => SharesNames f g).getLast?.getD f

/-- A file with the same names takes the place of the one that is looked up. -/
theorem holder_cons_of_shares (h : SharesNames f g) (rest : List CoveredFile) :
    holder (g :: rest) f = holder rest g := by
  have hsame : (fun other => decide (SharesNames f other))
      = fun other => decide (SharesNames g other) :=
    funext fun other => decide_eq_decide.2 ⟨h.symm.trans, h.trans⟩
  rw [holder, List.filter_cons_of_pos (by simpa using h), List.getLast?_cons, Option.getD_some,
    hsame, holder]

/-- A file with other names does not take the place of a snapshot. -/
theorem holder_cons_of_not (h : ¬ SharesNames f g) (rest : List CoveredFile) :
    holder (g :: rest) f = holder rest f := by
  rw [holder, List.filter_cons_of_neg (by simpa using h), holder]

/-- Where some files are looked through, the file that has the path is one of them. -/
theorem holder_mem (hf : f ∈ files) : holder files f ∈ files ∧ SharesNames f (holder files f) := by
  unfold holder
  cases hlast : (files.filter fun g => SharesNames f g).getLast? with
  | none => exact ⟨hf, rfl⟩
  | some last =>
    obtain ⟨hmem, hshares⟩ := List.mem_filter.1 (List.mem_of_getLast? hlast)
    exact ⟨hmem, of_decide_eq_true hshares⟩

/-- Plain identities do not share paths. -/
theorem holder_of_plain (hseparate : Session.Separate files)
    (hplain : ∀ g ∈ files, g.revision.id.IsPlain) (hf : f ∈ files) : holder files f = f := by
  obtain ⟨hmem, hshares⟩ := holder_mem hf
  exact (hseparate.eq_of_place hf hmem
    (SourceId.place_eq_of_snapshotNames (hplain f hf) (hplain _ hmem) hshares)).symm

/-- What comes after a file decides who holds its snapshot. -/
theorem holder_append_cons (front back : List CoveredFile) (f : CoveredFile) :
    holder (front ++ f :: back) f = holder back f := by
  have hself : SharesNames f f := rfl
  rw [holder, List.filter_append, List.filter_cons_of_pos (by simpa using hself),
    List.getLast?_append, List.getLast?_cons, Option.some_or, Option.getD_some, holder]

/-! ## One snapshot -/

/-- A snapshot is written, or else no more than its directory is made. -/
theorem snapshot_cases (directory : String) (w : Workspace) (f : CoveredFile) :
    (∃ made written, w.makeDirectory (snapshotDirectory directory f) = (true, made)
        ∧ made.write? (snapshotPath directory f) f.bytes = some written
        ∧ snapshot directory w f = (snapshotPath directory f, written))
      ∨ snapshot directory w f
        = (f.revision.id.text, (w.makeDirectory (snapshotDirectory directory f)).2) := by
  unfold snapshot
  generalize w.makeDirectory (snapshotDirectory directory f) = found
  obtain ⟨done, made⟩ := found
  cases done with
  | false => exact .inr rfl
  | true =>
    dsimp only
    rw [if_pos rfl]
    cases hwritten : made.write? (snapshotPath directory f) f.bytes with
    | none => exact .inr rfl
    | some written => exact .inl ⟨made, written, rfl, hwritten, rfl⟩

/-- A snapshot takes no file and no directory away. -/
theorem grows_snapshot (directory : String) (w : Workspace) (f : CoveredFile) :
    Grows w (snapshot directory w f).2 := by
  have hmade := w.grows_makeDirectory (snapshotDirectory directory f)
  rcases snapshot_cases directory w f with ⟨made, written, hdone, hwritten, heq⟩ | heq
  · rw [heq]
    rw [hdone] at hmade
    exact hmade.trans (Workspace.grows_write hwritten)
  · rw [heq]
    exact hmade

/-- The directory of a snapshot is there, and so is a file at its path. -/
structure Ready (directory : String) (f : CoveredFile) (w : Workspace) : Prop where
  made : w.makeDirectory (snapshotDirectory directory f) = (true, w)
  readable : ∃ bytes nanos, w.read (snapshotPath directory f) = .ok (bytes, nanos)

/-- What is ready for a snapshot stays ready while files are added. -/
theorem Ready.of_grows (h : Ready directory f w) (hg : Grows w w') : Ready directory f w' where
  made := hg.makeDirectory_again h.made
  readable := by
    obtain ⟨bytes, nanos, hread⟩ := h.readable
    exact hg.read hread

/-- A section that does not name its source names its snapshot, which has been written. -/
theorem ready_snapshot (htext : f.revision.id.text ≠ named)
    (h : named = (snapshot directory w f).1) :
    named = snapshotPath directory f ∧ Ready directory f (snapshot directory w f).2
      ∧ (snapshot directory w f).2.bytesAt (placeOf w.base (snapshotPath directory f))
        = f.bytes := by
  rcases snapshot_cases directory w f with ⟨made, written, hdone, hwritten, heq⟩ | heq
  · have hread := Workspace.read_write hwritten
    have hbase := base_snapshot directory w f
    rw [heq] at h hbase ⊢
    refine ⟨h, ⟨(Workspace.grows_write hwritten).makeDirectory_again hdone, _, _, hread⟩, ?_⟩
    rw [← hbase]
    exact Workspace.bytesAt_of_read hread
  · rw [heq] at h
    exact absurd h.symm htext

/-- What is ready for a file is ready for one with the same names. -/
theorem Ready.of_shares (h : Ready directory f w) (hnames : SharesNames f g) :
    Ready directory g w where
  made := hnames.snapshotDirectory_eq directory ▸ h.made
  readable := hnames.snapshotPath_eq directory ▸ h.readable

/-- Where all is ready, a snapshot is written. -/
theorem Ready.bytesAt_snapshot (h : Ready directory f w) :
    (snapshot directory w f).2.bytesAt (placeOf w.base (snapshotPath directory f))
      = f.bytes := by
  obtain ⟨bytes, nanos, hread⟩ := h.readable
  obtain ⟨written, hwritten⟩ := Workspace.write_of_read hread f.bytes
  rw [snapshot, h.made, if_pos rfl, hwritten, ← Workspace.base_write? hwritten]
  exact Workspace.bytesAt_of_read (Workspace.read_write hwritten)

/-! ## All snapshots -/

/-- Snapshots take no file and no directory away. -/
theorem grows_snapshots (directory : String) (w : Workspace) (files : List CoveredFile) :
    Grows w (snapshots directory w files).2 := by
  induction files generalizing w with
  | nil => exact .refl w
  | cons f rest ih => exact (grows_snapshot directory w f).trans (ih _)

/-- The snapshots of some files are taken after those of the files before them. -/
theorem snapshots_append (directory : String) (w : Workspace) (front back : List CoveredFile) :
    (snapshots directory w (front ++ back)).2
      = (snapshots directory (snapshots directory w front).2 back).2 := by
  induction front generalizing w with
  | nil => rfl
  | cons f rest ih => exact ih _

/-- The path of a section was found when its snapshot had its turn. -/
theorem mem_snapshots (h : (named, f) ∈ (snapshots directory w files).1) :
    ∃ front back, files = front ++ f :: back
      ∧ named = (snapshot directory (snapshots directory w front).2 f).1 := by
  induction files generalizing w with
  | nil => cases h
  | cons g rest ih =>
    rcases List.mem_cons.1 h with heq | hmem
    · obtain ⟨rfl, rfl⟩ := Prod.mk.inj heq
      exact ⟨[], rest, rfl, rfl⟩
    · obtain ⟨front, back, rfl, hnamed⟩ := ih hmem
      exact ⟨g :: front, back, rfl, hnamed⟩

/-- Where all is ready, the last file with the same names has the path in the end. -/
theorem Ready.bytesAt_snapshots (h : Ready directory f w)
    (hbytes : w.bytesAt (placeOf w.base (snapshotPath directory f)) = f.bytes)
    (files : List CoveredFile) :
    (snapshots directory w files).2.bytesAt (placeOf w.base (snapshotPath directory f))
      = (holder files f).bytes := by
  induction files generalizing w f with
  | nil => exact hbytes
  | cons g rest ih =>
    have hready := h.of_grows (grows_snapshot directory w g)
    have hbase := base_snapshot directory w g
    rw [snapshots, ← hbase]
    by_cases hnames : SharesNames f g
    · -- From here on the new file is the one to follow.
      rw [holder_cons_of_shares hnames, hnames.snapshotPath_eq]
      exact ih (hready.of_shares hnames) (hbase ▸ (h.of_shares hnames).bytesAt_snapshot)
    · rw [holder_cons_of_not hnames]
      have hplace : placeOf w.base (snapshotPath directory f)
          ≠ placeOf w.base (snapshotPath directory g) :=
        fun heq => hnames (sharesNames_of_place heq)
      exact ih hready (hbase ▸ (bytesAt_snapshot_of_ne hplace).trans hbytes)

/-- The files of a report, each with the path that its section names. -/
def sectioned (directory : String) (w : Workspace) (files : List CoveredFile) :
    List (String × CoveredFile) :=
  (snapshots directory (w.makeDirectory directory).2 files).1

/-- A section is that of a file of the report. -/
theorem mem_of_mem_sectioned (h : (named, f) ∈ sectioned directory w files) : f ∈ files := by
  obtain ⟨front, back, rfl, -⟩ := mem_snapshots h
  exact List.mem_append_right front List.mem_cons_self

/-- After the snapshots, a report that is written changes nothing but the trace. -/
theorem write_after_snapshots (h : write directory w files = (.ok path, w')) :
    Grows (snapshots directory (w.makeDirectory directory).2 files).2 w'
      ∧ ∀ names, names ≠ tracePlace w.base directory →
        w'.bytesAt names
          = (snapshots directory (w.makeDirectory directory).2 files).2.bytesAt names := by
  dsimp only [write] at h
  split at h
  · split at h
    · rename_i happend
      cases h
      refine ⟨Workspace.grows_append happend, fun names hnames => ?_⟩
      rw [tracePlace, ← w.base_makeDirectory directory,
        ← base_snapshots directory _ files] at hnames
      rw [(Workspace.append?_eq_some happend).1, Workspace.bytesAt, Workspace.fileAt?_ticked,
        Workspace.fileAt?_put_of_ne _ _ hnames]
      rfl
    · cases h
  · cases h

/-- After a report, the path of a section that does not name its source holds the bytes of the
    last file with the same names. -/
theorem read_snapshot (hwrite : write directory w files = (.ok path, w'))
    (hmem : (named, f) ∈ sectioned directory w files) (htext : f.revision.id.text ≠ named) :
    ∃ nanos, w'.read named = .ok ((holder files f).bytes, nanos) := by
  obtain ⟨front, back, hfiles, hturn⟩ := mem_snapshots hmem
  obtain ⟨rfl, hready, hbytes⟩ := ready_snapshot (hturn ▸ htext) hturn
  -- Places are told from one working directory all along.
  have hbase (before : List CoveredFile) :
      (snapshots directory (w.makeDirectory directory).2 before).2.base = w.base := by
    rw [base_snapshots, Workspace.base_makeDirectory]
  rw [← base_snapshot directory _ f] at hbytes
  have hkept := hready.bytesAt_snapshots hbytes back
  rw [base_snapshot, hbase front] at hkept
  have hafter := hready.of_grows (grows_snapshots directory _ back)
  -- These are all the snapshots; what follows is the trace, which has a place of its own.
  have hall : (snapshots directory (w.makeDirectory directory).2 files).2
      = (snapshots directory (snapshot directory
          (snapshots directory (w.makeDirectory directory).2 front).2 f).2 back).2 := by
    rw [hfiles, snapshots_append]
    rfl
  rw [← hall] at hkept hafter
  rw [hfiles, holder_append_cons, ← hkept]
  obtain ⟨hgrows, hkeeps⟩ := write_after_snapshots hwrite
  obtain ⟨bytes, nanos, hread⟩ := (hafter.of_grows hgrows).readable
  refine ⟨nanos, ?_⟩
  rw [hread, ← Workspace.bytesAt_of_read hread, hgrows.base, hbase files,
    hkeeps _ (tracePlace_ne_snapshot w.base directory f).symm]

end Report

namespace Session

open Report (snapshotPath sectioned traceBytes holder)

variable {e : Surroundings} {s t : Session} {n : Nat} {f : CoveredFile}

/-! ## What was read at the registration -/

/-- All files of a session from a number on were read in some surroundings. -/
def ReadIn (e : Surroundings) (first : Nat) (s : Session) : Prop :=
  ∀ n f, first ≤ n → s.files[n]? = some f → e.content f.revision.id = .ok (f.revision, f.bytes)

/-- A file that was just read is added to those that were. -/
theorem ReadIn.append {first : Nat} (h : s.ReadIn e first)
    (hcontent : e.content f.revision.id = .ok (f.revision, f.bytes))
    (hfiles : t.files = s.files ++ [f]) : t.ReadIn e first := by
  intro n g hn hg
  rw [hfiles, List.getElem?_append] at hg
  split at hg
  · exact h n g hn hg
  · obtain rfl := List.mem_singleton.1 (List.mem_of_getElem? hg)
    exact hcontent

/-- A file that is registered was just read. -/
theorem ReadIn.register {first : Nat} (h : s.ReadIn e first) (id : SourceId) :
    (s.register e id).2.ReadIn e first := by
  have houtcome := outcome_register e s id
  generalize s.register e id = found at houtcome ⊢
  obtain ⟨result, t⟩ := found
  cases houtcome with
  | served hnew hcontent hload =>
    obtain rfl := content_id hcontent
    exact h.append hcontent rfl
  | parsed hnew hcontent hload hparse =>
    obtain rfl := content_id hcontent
    exact h.append hcontent (congrArg (· ++ _) (files_saveMap ..))
  | _ => exact h

theorem ReadIn.updateLedger {first : Nat} (h : s.ReadIn e first) (n : Nat) (g : Ledger → Ledger) :
    (s.updateLedger n g).ReadIn e first := by
  intro i f hi hf
  rw [getElem?_updateLedger] at hf
  obtain ⟨old, hold, rfl⟩ := Option.map_eq_some_iff.1 hf
  have hcontent := h i old hi hold
  split
  · exact hcontent
  · exact hcontent

/-- A step that registers a file has read it. -/
theorem readIn_take (e : Surroundings) (s : Session) (x : Step) :
    (s.take e x).ReadIn e s.files.length := by
  refine take_induct (P := fun t => t.ReadIn e s.files.length) ?_ ?_ ?_ x ?_
  · exact fun t id h => h.register id
  · exact fun t p h => h
  · exact fun t n c h => h.updateLedger n _
  · intro n f hn hf
    rw [List.getElem?_eq_none hn] at hf
    cases hf

/-- The files that were registered are there later, with other counts at most. -/
theorem Extends.getElem? (h : s.Extends t) (hf : s.files[n]? = some f) :
    ∃ g, t.files[n]? = some g ∧ g.asRegistered = f.asRegistered := by
  obtain ⟨rest, hrest⟩ := h
  have hold : (s.files.map CoveredFile.asRegistered)[n]? = some f.asRegistered := by
    rw [List.getElem?_map, hf, Option.map_some]
  have hnew : (t.files.map CoveredFile.asRegistered)[n]? = some f.asRegistered := by
    rw [← hrest, List.getElem?_append_left (List.getElem?_eq_some_iff.1 hold).1, hold]
  rw [List.getElem?_map] at hnew
  exact Option.map_eq_some_iff.1 hnew

/-- A step of a course has given a file its number, and has read it. -/
def Registered (s : Session) (os : List Occurrence) (n : Nat) (f : CoveredFile) : Prop :=
  ∃ front e x back, os = front ++ .asked e x :: back ∧ (s.course front).files.length ≤ n
    ∧ n < ((s.course front).take e x).files.length
    ∧ e.content f.revision.id = .ok (f.revision, f.bytes)

/-- Every file of a course was read in the surroundings of the step that registered it. -/
theorem registered_course {os : List Occurrence} (hn : s.files.length ≤ n)
    (hf : (s.course os).files[n]? = some f) : s.Registered os n f := by
  induction os generalizing s with
  | nil =>
    rw [show (s.course []).files[n]? = s.files[n]? from rfl, List.getElem?_eq_none hn] at hf
    cases hf
  | cons o rest ih =>
    rw [course_cons] at hf
    by_cases hold : n < (s.meet o).files.length
    · cases o with
      | recached cache => exact absurd hold (Nat.not_lt.2 hn)
      | asked e x =>
        have hfirst : (s.take e x).files[n]? = some (s.take e x).files[n] :=
          List.getElem?_eq_getElem hold
        refine ⟨[], e, x, rest, rfl, hn, hold, ?_⟩
        -- What was registered then is still so.
        obtain ⟨g, hg, hsame⟩ := (extends_course (s.take e x) rest).getElem? hfirst
        obtain rfl : f = g := Option.some.inj (hf.symm.trans hg)
        have hrevision : f.revision = (s.take e x).files[n].revision := congrArg (·.revision) hsame
        have hbytes : f.bytes = (s.take e x).files[n].bytes := congrArg (·.bytes) hsame
        rw [hrevision, hbytes]
        exact readIn_take e s x n _ hn hfirst
    · obtain ⟨front, e, x, back, rfl, hlength, hnew, hcontent⟩ := ih (Nat.not_lt.1 hold) hf
      exact ⟨o :: front, e, x, back, rfl, hlength, hnew, hcontent⟩

/-! ## What a section leads to -/

/-- What holds of a section of a report whose path is that of a snapshot: the path holds the
    bytes of the last file with these names, and so those of the file of the section exactly if
    they are the same; and these were read when the file was registered. -/
structure LeadsTo (s : Session) (os : List Occurrence) (w : Workspace) (named : String)
    (f : CoveredFile) : Prop where
  held : ∃ nanos, w.read named = .ok ((holder (s.course os).files f).bytes, nanos)
  true_iff : (∃ nanos, w.read named = .ok (f.bytes, nanos))
    ↔ (holder (s.course os).files f).bytes = f.bytes
  registered : ∃ n, (s.course os).files[n]? = some f ∧ s.Registered os n f

/-- A report is written beside its sources: none of them goes by the path of a snapshot. -/
def Apart (directory : String) (s : Session) : Prop :=
  ∀ f ∈ s.files, ∀ g ∈ s.files, f.revision.id.text ≠ snapshotPath directory g

/-- After the report of any session, every section that names a snapshot leads to the last file
    with its names, and so to what was read of its own file exactly if that is the same; which
    it is for all of them if the identities are plain. -/
theorem snapshots_true_iff {settings : Settings} {cache : Cache} {os : List Occurrence}
    {directory path : String} {w w' : Workspace} (hs : (start settings cache).course os = s)
    (hwrite : Report.write directory w s.files = (.ok path, w')) (hapart : s.Apart directory) :
    traceBytes directory w' = traceBytes directory w
        ++ Text.Utf8.encode (Report.trace (sectioned directory w s.files))
      ∧ (∀ named f, (named, f) ∈ sectioned directory w s.files →
        (∃ g ∈ s.files, named = snapshotPath directory g) →
        (start settings cache).LeadsTo os w' named f)
      ∧ ((∀ g ∈ s.files, g.revision.id.IsPlain) → ∀ f ∈ s.files, holder s.files f = f) := by
  refine ⟨(Report.write_eq_ok hwrite).2.1, fun named f hmem hnamed => ?_, fun hplain f hf => ?_⟩
  · obtain ⟨g, hg, hpath⟩ := hnamed
    have hf : f ∈ s.files := Report.mem_of_mem_sectioned hmem
    have htext : f.revision.id.text ≠ named := hpath ▸ hapart f hf g hg
    obtain ⟨nanos, hread⟩ := Report.read_snapshot hwrite hmem htext
    -- The path holds the bytes of its holder; what these are was settled when that file was
    -- registered.
    obtain ⟨n, hn⟩ := List.mem_iff_getElem?.1 hf
    subst hs
    refine ⟨⟨nanos, hread⟩, ⟨?_, fun hsame => ⟨nanos, hsame ▸ hread⟩⟩, n, hn,
      registered_course (Nat.zero_le n) hn⟩
    rintro ⟨nanos', hread'⟩
    rw [hread] at hread'
    exact (Prod.mk.inj (Except.ok.inj hread')).1
  · subst hs
    exact Report.holder_of_plain (separate_course separate_nil os) hplain hf

/-- Two scripts of one name, one of them in a directory. -/
def twoPlaces : Surroundings where
  engine := fun _ _ => .ok ⟨[]⟩
  workspace := ⟨["work"],
    [(["work", "a.js"], .file (.plain [49, 59, 10]) 5000000000), (["work", "d"], .directory),
      (["work", "d", "a.js"], .file (.plain [50, 59, 10]) 6000000000)], 0⟩
  archive := .empty

/-- The outer script is met on a way through the directory, and then the inner one is
    registered. -/
def metThroughDirectory : List Occurrence :=
  [.asked twoPlaces (.onLine (.file "d/../a.js") 1), .asked twoPlaces (.register (.file "d/a.js"))]

/-- The session in which both were met. -/
def metInTwoPlaces : Session :=
  (start ⟨[], none⟩ .inMemory).course metThroughDirectory

/-- The files after a report of this session. -/
def reportedInTwoPlaces : Workspace :=
  (Report.write "out" twoPlaces.workspace metInTwoPlaces.files).2

/-- The path of both sections. -/
def sharedPath : String := "out/relative/d/a.js"

/-- Both scripts are kept at one path, and only the outer one has run. -/
theorem sectioned_twoPlaces :
    (sectioned "out" twoPlaces.workspace metInTwoPlaces.files).map
        (fun x => (x.1, x.2.ledger.counters.anyRan, x.2.revision.id, x.2.bytes))
      = [(sharedPath, true, .file "d/../a.js", [49, 59, 10]),
        (sharedPath, false, .file "d/a.js", [50, 59, 10])] := by
  decide +kernel

theorem write_twoPlaces : Report.write "out" twoPlaces.workspace metInTwoPlaces.files
    = (.ok "out/coverage.lcov", reportedInTwoPlaces) :=
  Prod.ext (by decide +kernel) rfl

theorem apart_twoPlaces : metInTwoPlaces.Apart "out" := by
  unfold Apart
  decide +kernel

theorem read_twoPlaces : reportedInTwoPlaces.read sharedPath = .ok ([50, 59, 10], 1000) := by
  decide +kernel

/-- The section of the outer script leads to the inner one. -/
theorem snapshot_overwritten :
    Report.write "out" twoPlaces.workspace metInTwoPlaces.files
        = (.ok "out/coverage.lcov", reportedInTwoPlaces)
      ∧ metInTwoPlaces.Apart "out"
      ∧ ∃ f, (sharedPath, f) ∈ sectioned "out" twoPlaces.workspace metInTwoPlaces.files
        ∧ f.ledger.counters.anyRan = true ∧ f.revision.id = .file "d/../a.js"
        ∧ ¬ ∃ nanos, reportedInTwoPlaces.read sharedPath = .ok (f.bytes, nanos) := by
  refine ⟨write_twoPlaces, apart_twoPlaces, ?_⟩
  obtain ⟨⟨named, f⟩, hmem, hparts⟩ := List.mem_map.1 (sectioned_twoPlaces ▸ List.mem_cons_self)
  obtain ⟨rfl, hran, hid, hbytes⟩ := by simpa only [Prod.mk.injEq] using hparts
  refine ⟨f, hmem, hran, hid, ?_⟩
  rintro ⟨nanos, hread⟩
  rw [read_twoPlaces, hbytes] at hread
  exact absurd (Prod.mk.inj (Except.ok.inj hread)).1 (by decide)

/-- The section of the inner script is true to it, since that is the last file at its path. -/
theorem snapshots_true_iff_inner :
    ∃ f, (sharedPath, f) ∈ sectioned "out" twoPlaces.workspace metInTwoPlaces.files
      ∧ f.revision.id = .file "d/a.js"
      ∧ (start ⟨[], none⟩ .inMemory).LeadsTo metThroughDirectory reportedInTwoPlaces sharedPath f
      ∧ (holder metInTwoPlaces.files f).bytes = f.bytes := by
  obtain ⟨-, hleads, -⟩ := snapshots_true_iff (s := metInTwoPlaces) rfl write_twoPlaces
    apart_twoPlaces
  obtain ⟨⟨named, f⟩, hmem, hparts⟩ :=
    List.mem_map.1 (sectioned_twoPlaces ▸ List.mem_cons_of_mem _ List.mem_cons_self)
  obtain ⟨rfl, hran, hid, hbytes⟩ := by simpa only [Prod.mk.injEq] using hparts
  have hnamed : ∃ g ∈ metInTwoPlaces.files, sharedPath = snapshotPath "out" g := by
    decide +kernel
  have hf := hleads sharedPath f hmem hnamed
  refine ⟨f, hmem, hid, hf, hf.true_iff.1 ⟨1000, ?_⟩⟩
  rw [hbytes]
  exact read_twoPlaces

end Session
end Coverage
