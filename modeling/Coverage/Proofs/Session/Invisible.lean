/-
  Coverage.Proofs.Session.Invisible

  Two sessions over the same files that differ in their caches give the same results.

  Sessions are paired if they track the same files with the same counts and both of their
  caches are honest; hosts are paired if their sessions are and they see the same files and
  resources.  Every step done on both keeps the pair (`Session.Paired.take`,
  `Host.Paired.take`), whether a map is found, missing, stale, unreadable or cannot be saved:
  in each case it is the map that parsing gives (`mapOf_spec`).
-/

import Coverage.Proofs.Session.Honest
import Coverage.Proofs.Workspace.Names
import Coverage.Session.Run

namespace Coverage

open Text (Utf8.lossy)

variable {engine : Engine} {past : Provenance}

namespace Session

/-! ## Sessions that differ in their caches -/

/-- Two sessions of which only the caches and the statistics may differ, with honest
    caches. -/
structure Paired (engine : Engine) (past : Provenance) (s t : Session) : Prop where
  settings : s.settings = t.settings
  files : s.files = t.files
  failed : s.failed = t.failed
  honest : s.cache.store.Honest engine past
  honest' : t.cache.store.Honest engine past

variable {s t : Session} {e : Surroundings}

theorem Paired.symm (h : Paired engine past s t) : Paired engine past t s :=
  ⟨h.settings.symm, h.files.symm, h.failed.symm, h.honest', h.honest⟩

theorem Paired.trans {u : Session} (h : Paired engine past s t) (h' : Paired engine past t u) :
    Paired engine past s u :=
  ⟨h.settings.trans h'.settings, h.files.trans h'.files, h.failed.trans h'.failed, h.honest,
    h'.honest'⟩

theorem paired_self (h : s.cache.store.Honest engine past) : Paired engine past s s :=
  ⟨rfl, rfl, rfl, h, h⟩

/-- Statistics are no part of the pair. -/
theorem Paired.withStats (h : Paired engine past s t) (stats : Statistics) :
    Paired engine past s { t with stats } :=
  ⟨h.settings, h.files, h.failed, h.honest, h.honest'⟩

/-! ## Registration -/

/-- Saving the map of a content keeps a cache honest, and changes nothing else but the statistics.
    -/
theorem saveMap_spec (h : s.cache.store.Honest engine past) {r : Revision} {m : SiteMap}
    {bytes : Bytes} (hbytes : past r.id.text r.freshness = some bytes)
    (hmap : analysis engine (Utf8.lossy bytes) r.id.text = .ok m) :
    Paired engine past s (s.saveMap r m) := by
  unfold saveMap
  split
  · rename_i cache hsave
    obtain ⟨store, hstore, heq⟩ := Cache.save_ok hsave
    refine ⟨rfl, rfl, rfl, h, ?_⟩
    show cache.store.Honest engine past
    rw [heq]
    exact h.save hstore hbytes hmap
  · exact (paired_self h).withStats _

/-- A survey gives what the engine makes of the text, and saves that at most. -/
theorem survey_spec (h : s.cache.store.Honest engine past) {r : Revision} {bytes : Bytes}
    (hbytes : past r.id.text r.freshness = some bytes) :
    (survey engine s r (Utf8.lossy bytes)).1 = analysis engine (Utf8.lossy bytes) r.id.text
      ∧ Paired engine past s (survey engine s r (Utf8.lossy bytes)).2 := by
  cases hparse : engine (Utf8.lossy bytes) r.id.text with
  | error fault =>
    rw [survey, analysis, hparse]
    exact ⟨rfl, (paired_self h).withStats _⟩
  | ok program =>
    have hmap : analysis engine (Utf8.lossy bytes) r.id.text = .ok (SiteMap.ofProgram program) := by
      rw [analysis, hparse]
    rw [hmap, survey, hparse]
    exact ⟨rfl, saveMap_spec h hbytes hmap⟩

/-- The map of a revision is the one that parsing gives, wherever it comes from. -/
theorem mapOf_spec (h : s.cache.store.Honest engine past) {r : Revision} {bytes : Bytes}
    (hbytes : past r.id.text r.freshness = some bytes) :
    (mapOf engine s r (Utf8.lossy bytes)).1 = analysis engine (Utf8.lossy bytes) r.id.text
      ∧ Paired engine past s (mapOf engine s r (Utf8.lossy bytes)).2 := by
  unfold mapOf
  split
  · rename_i m hload
    rw [h.load (Cache.load_ok hload) hbytes]
    exact ⟨rfl, (paired_self h).withStats _⟩
  · obtain ⟨hmap, hpaired⟩ := survey_spec (s := s.missed) h hbytes
    exact ⟨hmap, ((paired_self h).withStats _).trans hpaired⟩
  · obtain ⟨hmap, hpaired⟩ := survey_spec
      (s := { s.missed with stats := { s.missed.stats with errors := s.stats.errors + 1 } })
      h hbytes
    exact ⟨hmap, ((paired_self h).withStats _).trans hpaired⟩

/-- Both sessions find a source under the same number. -/
theorem Paired.fileIndex?_eq (h : Paired engine past s t) (id : SourceId) :
    s.fileIndex? id = t.fileIndex? id := by
  rw [fileIndex?, fileIndex?, h.files]

theorem Paired.tracks_eq (h : Paired engine past s t) (id : SourceId) :
    s.tracks id = t.tracks id := by
  rw [tracks, tracks, h.settings]

/-- A file that both are given keeps them paired. -/
theorem Paired.addFile (h : Paired engine past s t) (r : Revision) (source : String)
    (bytes : Bytes) (m : SiteMap) :
    Paired engine past (s.addFile r source bytes m) (t.addFile r source bytes m) :=
  ⟨h.settings, congrArg (· ++ _) h.files, h.failed, h.honest, h.honest'⟩

/-- A source is registered with the same outcome on both sides. -/
theorem Paired.register (h : Paired e.engine past s t) (he : e.Agrees past) (id : SourceId) :
    (s.register e id).1 = (t.register e id).1
      ∧ Paired e.engine past (s.register e id).2 (t.register e id).2 := by
  unfold Session.register
  rw [h.fileIndex?_eq id, h.tracks_eq id]
  cases t.fileIndex? id with
  | some n => exact ⟨rfl, h⟩
  | none =>
    cases htracks : t.tracks id with
    | false => exact ⟨rfl, h⟩
    | true =>
      cases hcontent : e.content id with
      | error fault => exact ⟨rfl, h⟩
      | ok found =>
        obtain ⟨r, bytes⟩ := found
        -- Only now are the caches asked, and either gives the map of the content or none.
        have hbytes := he id r bytes hcontent
        obtain ⟨hmap, hpaired⟩ := mapOf_spec h.honest hbytes
        obtain ⟨hmap', hpaired'⟩ := mapOf_spec h.honest' hbytes
        have hboth := (hpaired.symm.trans h).trans hpaired'
        simp only [Bool.not_true, Bool.false_eq_true, if_false]
        generalize mapOf e.engine s r (Utf8.lossy bytes) = x at hmap hboth
        generalize mapOf e.engine t r (Utf8.lossy bytes) = y at hmap' hboth
        obtain ⟨a, s'⟩ := x
        obtain ⟨b, t'⟩ := y
        obtain rfl : a = b := hmap.trans hmap'.symm
        cases a with
        | error fault => exact ⟨rfl, hboth⟩
        | ok m => exact ⟨congrArg (fun fs => Except.ok fs.length) hboth.files, hboth.addFile ..⟩

/-! ## Counting and callbacks -/

/-- What is counted in both keeps them paired. -/
theorem Paired.updateLedger (h : Paired engine past s t) (n : Nat) (f : Ledger → Ledger) :
    Paired engine past (s.updateLedger n f) (t.updateLedger n f) := by
  refine ⟨h.settings, ?_, h.failed, h.honest, h.honest'⟩
  show s.files.modify n _ = t.files.modify n _
  rw [h.files]

/-- Both look a source up with the same result, and try it only if neither has failed at it. -/
theorem Paired.ensure (h : Paired e.engine past s t) (he : e.Agrees past) (id : SourceId) :
    (s.ensure e id).1 = (t.ensure e id).1
      ∧ Paired e.engine past (s.ensure e id).2 (t.ensure e id).2 := by
  unfold Session.ensure
  rw [h.fileIndex?_eq id, h.tracks_eq id, h.failed]
  cases t.fileIndex? id with
  | some n => exact ⟨rfl, h⟩
  | none =>
    simp only
    split
    · exact ⟨rfl, h⟩
    · -- Neither has the source, and both are to try it: so both register it.
      obtain ⟨hsame, hpaired⟩ := h.register he id
      generalize s.register e id = x at hsame hpaired
      generalize t.register e id = y at hsame hpaired
      obtain ⟨a, s'⟩ := x
      obtain ⟨b, t'⟩ := y
      obtain rfl : a = b := hsame
      cases a with
      | ok n => exact ⟨rfl, hpaired⟩
      | error fault =>
        refine ⟨rfl, hpaired.settings, hpaired.files, ?_, hpaired.honest, hpaired.honest'⟩
        show id.place :: s'.failed = id.place :: t'.failed
        rw [hpaired.failed]

/-- A session after a callback: the file that was looked up, if there is one, has another
    ledger. -/
def counted (f : Ledger → Ledger) : Option Nat × Session → Session
  | (some n, s) => s.updateLedger n f
  | (none, s) => s

/-- A line is counted in the file that was looked up. -/
theorem onLine_eq (e : Surroundings) (s : Session) (id : SourceId) (line : Nat) :
    s.onLine e id line = counted (fun l => l.recordLine line) (s.ensure e id) := by
  unfold onLine
  rcases s.ensure e id with ⟨_ | n, t⟩
  · rfl
  · rfl

/-- An entry is counted in the file that was looked up. -/
theorem onEntry_eq (e : Surroundings) (s : Session) (id : SourceId) (name : Option String)
    (line : Nat) :
    s.onEntry e id name line
      = counted (fun l => (l.recordEntry name line).2) (s.ensure e id) := by
  unfold onEntry
  rcases s.ensure e id with ⟨_ | n, t⟩
  · rfl
  · rfl

/-- What is counted in a callback is counted in both. -/
theorem Paired.callback (h : Paired e.engine past s t) (he : e.Agrees past) (id : SourceId)
    (f : Ledger → Ledger) :
    Paired e.engine past (counted f (s.ensure e id)) (counted f (t.ensure e id)) := by
  obtain ⟨hsame, hpaired⟩ := h.ensure he id
  generalize s.ensure e id = x at hsame hpaired
  generalize t.ensure e id = y at hsame hpaired
  obtain ⟨n, s'⟩ := x
  obtain ⟨n', t'⟩ := y
  obtain rfl : n = n' := hsame
  cases n with
  | none => exact hpaired
  | some n => exact hpaired.updateLedger n f

/-- What an engine or its host asks of both sessions keeps them paired. -/
theorem Paired.take (h : Paired e.engine past s t) (he : e.Agrees past) (step : Step) :
    Paired e.engine past (s.take e step) (t.take e step) := by
  cases step with
  | register id => exact (h.register he id).2
  | onLine id line =>
    rw [Session.take, Session.take, onLine_eq, onLine_eq]
    exact h.callback he id _
  | onEntry id name line =>
    rw [Session.take, Session.take, onEntry_eq, onEntry_eq]
    exact h.callback he id _
  | countLine file line => exact h.updateLedger file fun l => l.recordLine line
  | countExit file line index => exact h.updateLedger file fun l => l.recordExit line index
  | countCall file key => exact h.updateLedger file fun l => (l.recordCall key).2
  | countEntry file name line => exact h.updateLedger file fun l => (l.recordEntry name line).2

end Session

namespace Host

/-! ## Hosts that differ in their caches -/

/-- Two hosts that see the same files and resources, with sessions that may differ in their
    caches and statistics. -/
structure Paired (past : Provenance) (h k : Host) : Prop where
  surroundings : h.surroundings = k.surroundings
  session : Session.Paired h.surroundings.engine past h.session k.session

variable {h k : Host}

/-- A change of the files is the same on both sides; no store changes with it. -/
theorem Paired.setWorkspace (hp : Paired past h k) (w : Workspace) :
    Paired past (h.setWorkspace w) (k.setWorkspace w) := by
  have hs := hp.session
  refine ⟨?_, hs.settings, hs.files, hs.failed, ?_, ?_⟩
  · show { h.surroundings with workspace := w } = { k.surroundings with workspace := w }
    rw [hp.surroundings]
  · show (h.session.cache.notice w).store.Honest h.surroundings.engine past
    rw [Cache.store_notice]
    exact hs.honest
  · show (k.session.cache.notice w).store.Honest h.surroundings.engine past
    rw [Cache.store_notice]
    exact hs.honest'

/-- The archive is seen by both alike. -/
theorem Paired.setArchive (hp : Paired past h k) (a : Archive) :
    Paired past (h.setArchive a) (k.setArchive a) := by
  refine ⟨?_, hp.session⟩
  show { h.surroundings with archive := a } = { k.surroundings with archive := a }
  rw [hp.surroundings]

/-- Other honest caches take the place of the two. -/
theorem Paired.setCache (hp : Paired past h k) {c d : Cache}
    (hc : c.store.Honest h.surroundings.engine past)
    (hd : d.store.Honest h.surroundings.engine past) :
    Paired past (h.setCache c) (k.setCache d) :=
  ⟨hp.surroundings, hp.session.settings, hp.session.files, hp.session.failed, hc, hd⟩

/-- A session that starts after another one has honest caches too. -/
theorem Paired.start (hp : Paired past h k) (settings : Session.Settings) {c d : Cache}
    (hc : c.store.Honest h.surroundings.engine past)
    (hd : d.store.Honest h.surroundings.engine past) :
    Paired past { h with session := .start settings c } { k with session := .start settings d } :=
  ⟨hp.surroundings, rfl, rfl, rfl, hc, hd⟩

/-- Both sessions end with the same result and leave the same files. -/
theorem Paired.finish_eq (hp : Paired past h k) (w : Workspace) :
    h.session.finish w = k.session.finish w := by
  rw [Session.finish, Session.finish, hp.session.settings, hp.session.files]

/-- A cache that has been damaged is as honest as it was. -/
theorem honest_damage {engine : Engine} {c : Cache} (hc : c.store.Honest engine past)
    (w : Workspace) (d : Cache.Store.Damage) : (c.damage w d).1.store.Honest engine past := by
  unfold Cache.damage
  cases c with
  | connected link =>
    simp only
    split
    · rw [Cache.store_setStore]
      exact hc.damage d
    · exact hc
  | memory s =>
    simp only
    split
    · exact hc
    · exact hc

/-! ## Steps done on both -/

/-- Whether the database that a cache is kept in can be opened again beside it. -/
def keepsDatabase (h : Host) : Prop :=
  ∃ link, h.session.cache = .connected link ∧ link.attached = true ∧ link.writable = true

/-- A step that does the same to the files of both hosts. A cache is handed on as it is, or
    opened again; damage reaches the cache that is in use. -/
def Shared (h k : Host) : Step → Prop
  | .damageCache d =>
    (h.session.cache.damage h.surroundings.workspace d).2
      = (k.session.cache.damage k.surroundings.workspace d).2
  | .restart _ .kept => (h.session.finish h.surroundings.workspace).1 = .ok ()
  | .restart settings .reopened =>
    h.keepsDatabase ∧ k.keepsDatabase
      ∧ (h.restart settings .reopened).host.surroundings.workspace
        = (k.restart settings .reopened).host.surroundings.workspace
  | .restart _ _ => False
  | _ => True

/-- A cache that is opened again beside its database is as honest as it was. -/
theorem honest_reopen (hh : h.keepsDatabase) {engine : Engine}
    (hc : h.session.cache.store.Honest engine past) (w : Workspace) :
    (h.session.cache.reopen w).1.store.Honest engine past := by
  obtain ⟨link, hlink, hattached, hwritable⟩ := hh
  rw [hlink] at hc ⊢
  unfold Cache.reopen
  simp only [hattached, hwritable, Bool.and_self, if_true]
  split
  · exact hc.opened
  · exact Cache.Store.honest_empty

/-- A session that ends without a fault hands its cache on. -/
theorem restart_kept {settings : Session.Settings}
    (hended : (h.session.finish h.surroundings.workspace).1 = .ok ()) :
    (h.restart settings .kept).host
      = { h.setWorkspace (h.session.finish h.surroundings.workspace).2 with
          session := .start settings h.session.cache } := by
  unfold restart nextCache
  simp only [hended]

/-- Of a session that is opened again, the next one has what the database kept. -/
theorem restart_reopened (h : Host) (settings : Session.Settings) :
    (h.restart settings .reopened).host
      = { h.setWorkspace
            (h.session.cache.reopen (h.session.finish h.surroundings.workspace).2).2 with
          session := .start settings
            (h.session.cache.reopen (h.session.finish h.surroundings.workspace).2).1 } :=
  rfl

/-- A step done on both hosts keeps them paired. -/
theorem Paired.take (hp : Paired past h k) (he : h.surroundings.Agrees past) {step : Step}
    (hstep : Shared h k step) : Paired past (h.take step) (k.take step) := by
  have hsame := hp.surroundings
  cases step with
  | ask step =>
    refine ⟨hsame, ?_⟩
    show Session.Paired _ past (h.session.take _ step) (k.session.take _ step)
    rw [← hsame]
    exact hp.session.take he step
  | writeFile path bytes nanos =>
    rw [Host.take, Host.take, hsame]
    exact hp.setWorkspace _
  | deleteFile path =>
    rw [Host.take, Host.take, hsame]
    exact hp.setWorkspace _
  | makeDirectory path =>
    rw [Host.take, Host.take, hsame]
    exact hp.setWorkspace _
  | addResource uri bytes =>
    rw [Host.take, Host.take, hsame]
    exact hp.setArchive _
  | withdrawResource uri =>
    rw [Host.take, Host.take, hsame]
    exact hp.setArchive _
  | damageCache d =>
    have hfiles : (h.session.cache.damage h.surroundings.workspace d).2
        = (k.session.cache.damage k.surroundings.workspace d).2 := hstep
    rw [Host.take, Host.take, hfiles]
    refine (hp.setWorkspace _).setCache ?_ ?_
    · exact honest_damage hp.session.honest _ d
    · exact honest_damage hp.session.honest' _ d
  | report directory =>
    rw [Host.take, Host.take, hsame, hp.session.files]
    exact hp.setWorkspace _
  | restart settings next =>
    -- The report that ends a session depends on its files alone.
    have hfinish : h.session.finish h.surroundings.workspace
        = k.session.finish k.surroundings.workspace := by
      rw [hp.finish_eq, hsame]
    cases next with
    | kept =>
      have hended : (h.session.finish h.surroundings.workspace).1 = .ok () := hstep
      have hended' : (k.session.finish k.surroundings.workspace).1 = .ok () := hfinish ▸ hended
      rw [Host.take, Host.take, restart_kept hended, restart_kept hended', hfinish]
      exact (hp.setWorkspace _).start settings hp.session.honest hp.session.honest'
    | reopened =>
      obtain ⟨hkeeps, hkeeps', htree⟩ := hstep
      have hfiles : (h.session.cache.reopen (h.session.finish h.surroundings.workspace).2).2
          = (k.session.cache.reopen (k.session.finish k.surroundings.workspace).2).2 := htree
      rw [Host.take, Host.take, restart_reopened, restart_reopened, hfiles]
      refine (hp.setWorkspace _).start settings ?_ ?_
      · exact honest_reopen hkeeps hp.session.honest _
      · exact honest_reopen hkeeps' hp.session.honest' _
    | fresh => cases hstep
    | exported => cases hstep

/-! ## Runs -/

/-- A run that does the same to the files of both hosts, and in which what is found is always
    among the contents. -/
def SharedRun (past : Provenance) (h k : Host) : List Step → Prop
  | [] => h.surroundings.Agrees past
  | step :: rest =>
    h.surroundings.Agrees past ∧ Shared h k step
      ∧ SharedRun past (h.take step) (k.take step) rest

/-- Nothing but the statistics tells two hosts apart, and their caches are honest. -/
structure Indistinguishable (past : Provenance) (h k : Host) : Prop where
  surroundings : h.surroundings = k.surroundings
  settings : h.session.settings = k.session.settings
  files : h.session.files = k.session.files
  failed : h.session.failed = k.session.failed
  registered : ∀ id, (h.session.register h.surroundings id).1
    = (k.session.register k.surroundings id).1
  trace : h.session.trace = k.session.trace
  exported : h.session.exportBundle = k.session.exportBundle
  finished : ∀ w, h.session.finish w = k.session.finish w
  honest : h.session.cache.store.Honest h.surroundings.engine past
  honest' : k.session.cache.store.Honest h.surroundings.engine past

/-- What is asked of a session is answered from its files and the surroundings, and by a cache
    only with what these would give as well. -/
theorem Paired.indistinguishable (hp : Paired past h k) (he : h.surroundings.Agrees past) :
    Indistinguishable past h k where
  surroundings := hp.surroundings
  settings := hp.session.settings
  files := hp.session.files
  failed := hp.session.failed
  registered := fun id => by
    rw [← hp.surroundings]
    exact (hp.session.register he id).1
  trace := by
    rw [Session.trace, Session.trace, hp.session.files]
  exported := by
    rw [Session.exportBundle, Session.exportBundle, hp.session.files]
  finished := hp.finish_eq
  honest := hp.session.honest
  honest' := hp.session.honest'

/-- Hosts that are paired remain so along a run, by induction on its steps. -/
theorem Paired.run (hp : Paired past h k) {steps done : List Step}
    (hsteps : SharedRun past h k steps) (hdone : done <+: steps) :
    Indistinguishable past (h.run done) (k.run done) := by
  induction steps generalizing h k done with
  | nil =>
    rw [List.prefix_nil.1 hdone]
    exact hp.indistinguishable hsteps
  | cons step rest ih =>
    obtain ⟨he, hstep, hrest⟩ := hsteps
    cases done with
    | nil => exact hp.indistinguishable he
    | cons first done =>
      obtain ⟨rfl, hrun⟩ := List.cons_prefix_cons.1 hdone
      exact ih (hp.take he hstep) hrest hrun

/-- Whatever two honest caches hold, sessions that begin with them give the same results
    after every step of a run, and their caches are honest again. -/
theorem run_indistinguishable {e : Surroundings} {settings : Session.Settings} {c d : Cache}
    (hc : c.store.Honest e.engine past) (hd : d.store.Honest e.engine past) {steps : List Step}
    (hsteps : SharedRun past ⟨e, .start settings c⟩ ⟨e, .start settings d⟩ steps) :
    ∀ done, done <+: steps →
      Indistinguishable past (run ⟨e, .start settings c⟩ done)
        (run ⟨e, .start settings d⟩ done) := by
  intro done hdone
  have hpaired : Paired past ⟨e, .start settings c⟩ ⟨e, .start settings d⟩ :=
    ⟨rfl, rfl, rfl, rfl, hc, hd⟩
  exact hpaired.run hsteps hdone

/-- One script, which is not in the working directory, and an engine that takes every text for
    an empty one. -/
def oneScript : Surroundings where
  engine := fun _ _ => .ok ⟨[]⟩
  workspace := ⟨["work"], [(["a.js"], .file (.plain [10]) 5000)], 0⟩
  archive := .empty

theorem agrees_oneScript : oneScript.Agrees fun _ _ => some [10] := by
  intro id r bytes hcontent
  cases id with
  | file path =>
    unfold Surroundings.content at hcontent
    simp only at hcontent
    split at hcontent
    · rename_i found nanos hread
      cases hcontent
      obtain ⟨names, content, hmem, rfl⟩ := Workspace.mem_of_read hread
      cases List.mem_singleton.1 hmem
      rfl
    · cases hcontent
  | resource uri => cases hcontent

/-- The entry of the script is there on one side and missing on the other, and the database
    that has it refuses others. -/
theorem run_indistinguishable_oneScript :
    ∃ s, Cache.Store.empty.save ⟨.file "/a.js", .modified 0 5⟩ ⟨[], [], []⟩ = .ok s
      ∧ ∀ done, done <+: [.damageCache .refuse, .restart ⟨[], none⟩ .kept,
          .ask (.onLine (.file "/a.js") 1), .ask (.register (.file "/a.js"))] →
        Indistinguishable (fun _ _ => some [10])
          (run ⟨oneScript, .start ⟨[], none⟩ (.connected ⟨s, .everything, true, true, true⟩)⟩ done)
          (run ⟨oneScript, .start ⟨[], none⟩ .inMemory⟩ done) := by
  obtain ⟨s, hs⟩ : ∃ s, Cache.Store.empty.save ⟨.file "/a.js", .modified 0 5⟩ ⟨[], [], []⟩
      = .ok s := ⟨_, rfl⟩
  have hmap : analysis oneScript.engine (Utf8.lossy [10]) "/a.js" = .ok ⟨[], [], []⟩ := by
    have hnil : SiteMap.ofProgram ⟨[]⟩ = ⟨[], [], []⟩ := by
      simp [SiteMap.ofProgram, SiteMap.canonical, Script.Program.visits, Script.followed,
        Script.numberExits, Script.numberFunctions, LineSet.ofList]
    exact congrArg Except.ok hnil
  have hhonest : s.Honest oneScript.engine fun _ _ => some [10] :=
    Cache.Store.honest_empty.save hs rfl hmap
  refine ⟨s, hs, run_indistinguishable hhonest Cache.Store.honest_empty ?_⟩
  exact ⟨agrees_oneScript, rfl, agrees_oneScript, rfl, agrees_oneScript, trivial,
    agrees_oneScript, trivial, agrees_oneScript⟩

end Host
end Coverage
