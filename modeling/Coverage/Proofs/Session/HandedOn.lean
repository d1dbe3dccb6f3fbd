/-
  Coverage.Proofs.Session.HandedOn

  The cache of a session serves the next one.

  The store of a session that began with an empty one mirrors its files: it lists just their
  revisions and maps (`Mirrored`).  A source that is registered for the first time cannot be
  found in such a store, so it is parsed, and its map is saved, in order and under a new
  identity (`Mirrored.register`); all else that happens leaves maps and store alone
  (`take_cases`).  So the bundle of the store is that of the files.  A session that begins
  with this store, or with one made of the bundle, finds the map of every source that has not
  changed, and has no need to write (`Resumed.register`, `Resumed.run`).
-/

import Coverage.Proofs.Cache.Contents
import Coverage.Proofs.Session.Counts
import Coverage.Proofs.SiteMap.Regular
import Coverage.Proofs.Source.Freshness
import Mathlib

namespace Coverage

open Cache (Store)
open Ledger (Charge)

/-- A cache that works, with nothing in it. -/
structure Cache.Fresh (c : Cache) : Prop where
  readable : c.isReadable = true
  writable : c.isWritable = true
  undamaged : c.store.Undamaged
  empty : c.store.tables.entries = []

namespace Session

variable {e : Surroundings} {s t : Session} {id : SourceId} {c : Cache}

/-! ## Maps of a session -/

/-- The revisions and maps of the files of a session. -/
def entries (s : Session) : List (Revision × SiteMap) :=
  s.files.map fun f => (f.revision, f.ledger.map)

theorem mem_entries {f : CoveredFile} (h : f ∈ s.files) : (f.revision, f.ledger.map) ∈ s.entries :=
  List.mem_map.2 ⟨f, h, rfl⟩

/-- No map of a session has two functions of one key. -/
def KeysDiffer (s : Session) : Prop :=
  ∀ a ∈ s.entries, (a.2.functions.map FunctionSpan.key).Nodup

/-- Two sessions agree in the maps of their files, in their settings and in their caches. -/
structure SameMaps (s t : Session) : Prop where
  settings : t.settings = s.settings
  cache : t.cache = s.cache
  entries : t.entries = s.entries

theorem SameMaps.refl (s : Session) : SameMaps s s :=
  ⟨rfl, rfl, rfl⟩

/-- Whatever is counted, the maps stay the same. -/
theorem SameMaps.updateLedger (h : SameMaps s t) (n : Nat) {g : Ledger → Ledger}
    (hg : ∀ l, (g l).map = l.map) : SameMaps s (t.updateLedger n g) where
  settings := h.settings
  cache := h.cache
  entries := by
    rw [← h.entries]
    -- File by file: only one has another ledger, and that one of the same map.
    apply List.ext_getElem?
    intro i
    show ((t.updateLedger n g).files.map _)[i]? = (t.files.map _)[i]?
    rw [List.getElem?_map, List.getElem?_map, getElem?_updateLedger, Option.map_map]
    congr 1
    funext f
    show ((if n = i then _ else f).revision, (if n = i then _ else f).ledger.map) = _
    split
    · rw [hg]
    · rfl

/-- What is counted after a look-up changes no map. -/
theorem SameMaps.counted {g : Ledger → Ledger} (hg : ∀ l, (g l).map = l.map)
    {found : Option Nat × Session} (h : SameMaps s found.2) : SameMaps s (counted g found) := by
  obtain ⟨_ | n, t⟩ := found
  · exact h
  · exact h.updateLedger n hg

/-- The source that a step names. -/
def Step.source? : Step → Option SourceId
  | .register id | .onLine id _ | .onEntry id _ _ => some id
  | _ => none

/-- A look-up changes maps only by registering. -/
theorem ensure_cases (e : Surroundings) (s : Session) (id : SourceId) :
    SameMaps s (s.ensure e id).2 ∨ SameMaps (s.register e id).2 (s.ensure e id).2 := by
  unfold ensure
  split
  · exact .inl (.refl s)
  · split
    · exact .inl (.refl s)
    · -- A source that fails is remembered, which no map depends on.
      rcases s.register e id with ⟨fault | n, t⟩
      · exact .inr ⟨rfl, rfl, rfl⟩
      · exact .inr (.refl t)

/-- Maps and cache are those before a step, or those after the registration of its source. -/
theorem take_cases (e : Surroundings) (s : Session) (x : Step) :
    SameMaps s (s.take e x)
      ∨ ∃ id, x.source? = some id ∧ SameMaps (s.register e id).2 (s.take e x) := by
  have hcount (n : Nat) (charge : Charge) :
      SameMaps s (s.updateLedger n fun l => l.charge charge) :=
    (SameMaps.refl s).updateLedger n fun l => l.map_charge charge
  have hcallback (id : SourceId) (charge : Charge) :
      SameMaps s (counted (fun l => l.charge charge) (s.ensure e id))
        ∨ SameMaps (s.register e id).2 (counted (fun l => l.charge charge) (s.ensure e id)) :=
    (ensure_cases e s id).imp (.counted fun l => l.map_charge charge)
      (.counted fun l => l.map_charge charge)
  -- What is counted by number asks for no source; what is counted by identity looks it up first.
  cases x with
  | register id => exact .inr ⟨id, rfl, .refl _⟩
  | onLine id line =>
    rw [take, onLine_eq]
    exact (hcallback id (.line line)).imp_right fun h => ⟨id, rfl, h⟩
  | onEntry id name line =>
    rw [take, onEntry_eq]
    exact (hcallback id (.entry name line)).imp_right fun h => ⟨id, rfl, h⟩
  | countLine file line => exact .inl (hcount file (.line line))
  | countExit file line index => exact .inl (hcount file (.exit line index))
  | countCall file key => exact .inl (hcount file (.call key))
  | countEntry file name line => exact .inl (hcount file (.entry name line))

/-- A file that is there keeps its revision and its map. -/
theorem mem_entries_take (hs : Separate s.files) (e : Surroundings) (x : Step)
    {a : Revision × SiteMap} (ha : a ∈ s.entries) : a ∈ (s.take e x).entries := by
  obtain ⟨f, hf, rfl⟩ := List.mem_map.1 ha
  obtain ⟨n, hn⟩ := List.mem_iff_getElem?.1 hf
  refine List.mem_map.2 ⟨x.settle n f, List.mem_of_getElem? (getElem?_take hs hn e x), ?_⟩
  rw [Step.settle]
  cases x.charge? n f.revision.id.place with
  | none => rfl
  | some charge => exact Prod.ext rfl (f.ledger.map_charge charge)

/-! ## First registrations -/

section

variable {r : Revision} {bytes : Bytes} (hindex : s.fileIndex? id = none)
  (htracks : s.tracks id = true) (hcontent : e.content id = .ok (r, bytes))

include hindex htracks hcontent

/-- A source whose map is in the cache. -/
theorem register_hit {m : SiteMap} (hload : s.cache.load r = .ok (some m)) :
    s.register e id = (.ok s.files.length,
      { s with stats := { s.stats with hits := s.stats.hits + 1 } }.addFile r
        (Text.Utf8.lossy bytes) bytes m) := by
  rw [register, hindex]
  simp only [htracks, hcontent, mapOf, hload, Bool.not_true, Bool.false_eq_true, if_false]

/-- A source that is not in the cache and does not parse. -/
theorem register_misparsed (hload : s.cache.load r = .ok none) {fault : Script.SyntaxFault}
    (hparse : e.engine (Text.Utf8.lossy bytes) r.id.text = .error fault) :
    SameMaps s (s.register e id).2 := by
  rw [register, hindex]
  simp only [htracks, hcontent, mapOf, hload, survey, hparse, Bool.not_true, Bool.false_eq_true,
    if_false]
  exact ⟨rfl, rfl, rfl⟩

/-- A source that is not in the cache and parses. -/
theorem register_parsed (hload : s.cache.load r = .ok none) {p : Script.Program}
    (hparse : e.engine (Text.Utf8.lossy bytes) r.id.text = .ok p) :
    (s.register e id).2 = (s.missed.saveMap r (SiteMap.ofProgram p)).addFile r
      (Text.Utf8.lossy bytes) bytes (SiteMap.ofProgram p) := by
  rw [register, hindex]
  simp only [htracks, hcontent, mapOf, hload, survey, hparse, Bool.not_true, Bool.false_eq_true,
    if_false]

end

/-! ## The store mirrors the files -/

/-- What is known of the revision and the map of every file of a session. -/
structure Eligible (s : Session) (a : Revision × SiteMap) : Prop where
  named : SourceId.ofText? a.1.id.text = some a.1.id
  tracked : s.tracks a.1.id = true
  given : a.1.freshness.Given
  regular : a.2.Regular

/-- What may be tracked depends on the settings alone. -/
theorem Eligible.of_settings {a : Revision × SiteMap} (h : s.Eligible a)
    (hsettings : t.settings = s.settings) : t.Eligible a where
  named := h.named
  tracked := by
    rw [tracks, hsettings]
    exact h.tracked
  given := h.given
  regular := h.regular

/-- The store in use lists what the files of a session are. -/
structure Mirrored (s : Session) : Prop where
  readable : s.cache.isReadable = true
  writable : s.cache.isWritable = true
  lists : s.cache.store.Lists s.entries
  separate : Separate s.files
  eligible : ∀ a ∈ s.entries, s.Eligible a

/-- A session that starts with an empty cache mirrors it. -/
theorem mirrored_start (settings : Settings) (hc : c.Fresh) : Mirrored (start settings c) where
  readable := hc.readable
  writable := hc.writable
  lists := Store.lists_nil hc.undamaged hc.empty
  separate := separate_nil
  eligible := List.forall_mem_nil _

/-- Counters do not matter. -/
theorem Mirrored.of_sameMaps (h : Mirrored s) (hsame : SameMaps s t) (ht : Separate t.files) :
    Mirrored t where
  readable := hsame.cache ▸ h.readable
  writable := hsame.cache ▸ h.writable
  lists := by
    rw [hsame.cache, hsame.entries]
    exact h.lists
  separate := ht
  eligible := fun a ha => (h.eligible a (hsame.entries ▸ ha)).of_settings hsame.settings

/-- A source that is named by its text and has no file is not in the store. -/
theorem Mirrored.not_listed (h : Mirrored s) (hid : SourceId.ofText? id.text = some id)
    (hindex : s.fileIndex? id = none) : id.text ∉ s.entries.map (·.1.id.text) := by
  intro hmem
  obtain ⟨a, ha, htext⟩ := List.mem_map.1 hmem
  -- Its text is that of a file, so it is the source of that file.
  have hsame : a.1.id = id := by
    have hnamed := (h.eligible a ha).named
    rw [htext, hid] at hnamed
    exact (Option.some.inj hnamed).symm
  obtain ⟨f, hf, rfl⟩ := List.mem_map.1 ha
  exact place_ne_of_fileIndex? hindex f hf (congrArg SourceId.place hsame)

/-- An identity that the session does not track is not in its cache. -/
theorem Mirrored.load_eq_none (h : Mirrored s) {r : Revision}
    (hr : r.id.text ∉ s.entries.map (·.1.id.text)) : s.cache.load r = .ok none := by
  rw [Cache.load, Cache.read, if_pos h.readable]
  exact h.lists.load_not_mem hr

/-- The map of a new file is saved, if no two functions of it have one key. -/
theorem Mirrored.addParsed (h : Mirrored s) {r : Revision} {m : SiteMap}
    (hindex : s.fileIndex? r.id = none) (hnew : s.Eligible (r, m))
    (hkeys : (m.functions.map FunctionSpan.key).Nodup) (source : String) (bytes : Bytes) :
    Mirrored ((s.missed.saveMap r m).addFile r source bytes m) := by
  obtain ⟨store, hstore⟩ := (Store.save_isOk_iff h.lists.undamaged.sound r m).2
    ⟨h.lists.undamaged.accepts, hnew.regular.distinct hkeys⟩
  have hsave : s.missed.cache.save r m = .ok (s.cache.setStore store) :=
    Cache.save_eq_ok_iff.2 ⟨h.readable, h.writable, store, hstore, rfl⟩
  obtain ⟨t, ht, hsettings, hfiles, hcache⟩ : ∃ t, s.missed.saveMap r m = t
      ∧ t.settings = s.settings ∧ t.files = s.files ∧ t.cache = s.cache.setStore store := by
    rw [saveMap, hsave]
    exact ⟨_, rfl, rfl, rfl, rfl⟩
  rw [ht]
  have hentries : (t.addFile r source bytes m).entries = s.entries ++ [(r, m)] := by
    rw [entries, addFile, hfiles]
    exact List.map_append
  -- The cache is still in use and has the new entry; so has the list of files, at its end.
  refine ⟨?_, ?_, ?_, ?_, fun a ha => ?_⟩
  · show t.cache.isReadable = true
    rw [hcache, Cache.isReadable_setStore, h.readable]
  · show t.cache.isWritable = true
    rw [hcache, Cache.isWritable_setStore, h.writable]
  · show t.cache.store.Lists _
    rw [hentries, hcache, Cache.store_setStore]
    exact h.lists.save (h.not_listed hnew.named hindex) hnew.regular.canonical hstore
  · show Separate (t.files ++ _)
    rw [hfiles]
    exact h.separate.append (place_ne_of_fileIndex? hindex)
  · have hsettings' : (t.addFile r source bytes m).settings = s.settings := hsettings
    rw [hentries] at ha
    rcases List.mem_append.1 ha with ha | ha
    · exact (h.eligible a ha).of_settings hsettings'
    · rw [List.mem_singleton.1 ha]
      exact hnew.of_settings hsettings'

/-- A registration keeps the store in step with the files. -/
theorem Mirrored.register (h : Mirrored s) (hid : SourceId.ofText? id.text = some id)
    (hkeys : (s.register e id).2.KeysDiffer) :
    Mirrored (s.register e id).2 := by
  cases hindex : s.fileIndex? id with
  | some n =>
    rw [Session.register, hindex]
    exact h
  | none =>
    cases htracks : s.tracks id with
    | false =>
      simp only [Session.register, hindex, htracks, Bool.not_false, if_true]
      exact h
    | true =>
      cases hcontent : e.content id with
      | error fault =>
        simp only [Session.register, hindex, htracks, hcontent, Bool.not_true, Bool.false_eq_true,
          if_false]
        exact h
      | ok found =>
        obtain ⟨r, bytes⟩ := found
        obtain rfl : r.id = id := content_id hcontent
        -- No older entry is in the way, so the map can only come from the engine.
        have hload := h.load_eq_none (h.not_listed hid hindex)
        cases hparse : e.engine (Text.Utf8.lossy bytes) r.id.text with
        | error fault =>
          have hsame := register_misparsed hindex htracks hcontent hload hparse
          exact h.of_sameMaps hsame ((admits_register e s r.id).separate h.separate)
        | ok p =>
          rw [register_parsed hindex htracks hcontent hload hparse] at hkeys ⊢
          have hnew : s.Eligible (r, SiteMap.ofProgram p) :=
            ⟨hid, htracks, Surroundings.given_content hcontent, SiteMap.regular_ofProgram p⟩
          exact h.addParsed hindex hnew (hkeys _ (mem_entries List.mem_concat_self)) _ bytes

/-- The session after some steps, each in surroundings of its own. -/
def runAmid (s : Session) (steps : List (Surroundings × Step)) : Session :=
  steps.foldl (fun s x => s.take x.1 x.2) s

/-- A step keeps a session and its cache in agreement. -/
theorem Mirrored.take (h : Mirrored s) {x : Step}
    (hx : ∀ id, x.source? = some id → SourceId.ofText? id.text = some id)
    (hkeys : (s.take e x).KeysDiffer) : Mirrored (s.take e x) := by
  have hseparate := separate_take h.separate e x
  rcases take_cases e s x with hsame | ⟨id, hid, hsame⟩
  · exact h.of_sameMaps hsame hseparate
  · refine (h.register (hx id hid) ?_).of_sameMaps hsame hseparate
    rw [KeysDiffer, ← hsame.entries]
    exact hkeys

/-- What is tracked stays tracked along a run. -/
theorem mem_entries_runAmid (hs : Separate s.files) {steps : List (Surroundings × Step)}
    {a : Revision × SiteMap} (ha : a ∈ s.entries) : a ∈ (s.runAmid steps).entries := by
  induction steps generalizing s with
  | nil => exact ha
  | cons x rest ih => exact ih (separate_take hs x.1 x.2) (mem_entries_take hs x.1 x.2 ha)

/-- The store mirrors the files at the end of a run if no map that is there has two functions
    of one key. -/
theorem Mirrored.run (h : Mirrored s) {steps : List (Surroundings × Step)}
    (hsteps : ∀ x ∈ steps, ∀ id, x.2.source? = some id → SourceId.ofText? id.text = some id)
    (hkeys : (s.runAmid steps).KeysDiffer) : Mirrored (s.runAmid steps) := by
  induction steps generalizing s with
  | nil => exact h
  | cons x rest ih =>
    obtain ⟨hx, hrest⟩ := List.forall_mem_cons.1 hsteps
    refine ih (h.take hx fun a ha => ?_) hrest hkeys
    -- A map that is there now is still there at the end.
    exact hkeys a (mem_entries_runAmid (separate_take h.separate x.1 x.2) ha)

/-! ## The next session -/

/-- Files at different places have different texts, if these name them. -/
theorem Separate.nodup_texts (h : Separate s.files)
    (hnamed : ∀ a ∈ s.entries, SourceId.ofText? a.1.id.text = some a.1.id) :
    (s.entries.map (·.1.id.text)).Nodup := by
  rw [entries, List.map_map, List.Nodup, List.pairwise_map, List.pairwise_iff_getElem]
  intro i j hi hj hij htext
  have hfirst := hnamed _ (mem_entries (List.getElem_mem hi))
  have hlast := hnamed _ (mem_entries (List.getElem_mem hj))
  have hsame := hfirst.symm.trans ((congrArg SourceId.ofText? htext).trans hlast)
  have hindices := h i j _ _ (List.getElem?_eq_getElem hi) (List.getElem?_eq_getElem hj)
    (congrArg SourceId.place (Option.some.inj hsame))
  omega

/-- What comes last is new or has been there before. -/
theorem eraseDups_concat (ids : List SourceId) (id : SourceId) :
    (ids ++ [id]).eraseDups = ids.eraseDups ++ if id ∈ ids then [] else [id] := by
  rw [List.eraseDups_append]
  split
  · simp [List.removeAll, *]
  · simp [List.removeAll, List.eraseDups_cons, *]

/-- The sources of some files have the contents and tokens that they had when they were
    registered. -/
def Keeps (e : Surroundings) (files : List CoveredFile) : Prop :=
  ∀ f ∈ files, e.content f.revision.id = .ok (f.revision, f.bytes)

/-- A session that began with a cache, and in which some sources of another one have been
    registered: each was found in the cache the first time, and nothing was written. -/
structure Resumed (s : Session) (c : Cache) (ids : List SourceId) (t : Session) : Prop where
  paths : t.settings.pathSet = s.settings.pathSet
  cache : t.cache = c
  stats : t.stats = ⟨ids.eraseDups.length, 0, 0, 0, 0⟩
  registered : t.files.map (·.revision.id) = ids.eraseDups
  separate : Separate t.files
  files : ∀ g ∈ t.files, ∃ f ∈ s.files,
    g.revision = f.revision ∧ g.bytes = f.bytes ∧ g.ledger = .ofMap f.ledger.map

/-- A session that starts with the cache of another has taken over nothing yet. -/
theorem resumed_start {settings : Settings} (h : settings.pathSet = s.settings.pathSet) :
    Resumed s c [] (start settings c) where
  paths := h
  cache := rfl
  stats := rfl
  registered := rfl
  separate := separate_nil
  files := List.forall_mem_nil _

/-- What was asked for again is what is tracked. -/
theorem Resumed.mem_ids {ids : List SourceId} (h : Resumed s c ids t) :
    id ∈ ids ↔ ∃ g ∈ t.files, g.revision.id = id := by
  rw [← List.mem_eraseDups, ← h.registered, List.mem_map]

section

variable {ids : List SourceId} {f : CoveredFile} (h : Resumed s c ids t) (hs : Mirrored s)

include h hs

/-- Files of the two sessions at one place are the same. -/
theorem Resumed.of_place {g : CoveredFile} (hg : g ∈ t.files) (hf : f ∈ s.files)
    (hplace : g.revision.id.place = f.revision.id.place) :
    g.revision = f.revision ∧ g.ledger = .ofMap f.ledger.map := by
  obtain ⟨f', hf', hrevision, -, hledger⟩ := h.files g hg
  obtain rfl := hs.separate.eq_of_place hf' hf (hrevision ▸ hplace)
  exact ⟨hrevision, hledger⟩

/-- Once all sources are registered, the bundle is the same. -/
theorem Resumed.exportBundle_eq (hall : ∀ f ∈ s.files, f.revision.id ∈ ids) :
    t.exportBundle = s.exportBundle := by
  -- Both sessions have the same entries, though in different orders.
  have hmem (a : Revision × SiteMap) : a ∈ t.entries ↔ a ∈ s.entries := by
    constructor
    · intro ha
      obtain ⟨g, hg, rfl⟩ := List.mem_map.1 ha
      obtain ⟨f, hf, hrevision, -, hledger⟩ := h.files g hg
      rw [hrevision, hledger]
      exact mem_entries hf
    · intro ha
      obtain ⟨f, hf, rfl⟩ := List.mem_map.1 ha
      obtain ⟨g, hg, hid⟩ := h.mem_ids.1 (hall f hf)
      obtain ⟨hrevision, hledger⟩ := h.of_place hs hg hf (congrArg SourceId.place hid)
      have hfile := mem_entries hg
      rw [hrevision, hledger] at hfile
      exact hfile
  have hkeys := h.separate.nodup_texts fun a ha => (hs.eligible a ((hmem a).1 ha)).named
  refine Bundle.encode_of_mem_iff hkeys hs.lists.keys fun record => ?_
  exact exists_congr fun a => and_congr_left fun _ => hmem a

variable (hreadable : c.isReadable = true) (hlists : c.store.Lists s.entries)

include hreadable hlists

/-- A source that has not changed is found in the cache, unless it has a file already; either
    way its file has the revision and the map that it had. -/
theorem Resumed.register (he : Keeps e s.files) (hf : f ∈ s.files) :
    Resumed s c (ids ++ [f.revision.id]) (t.register e f.revision.id).2
      ∧ ∃ n g, (t.register e f.revision.id).1 = .ok n
        ∧ (t.register e f.revision.id).2.files[n]? = some g
        ∧ g.revision = f.revision ∧ g.ledger.map = f.ledger.map := by
  have hnext := eraseDups_concat ids f.revision.id
  cases hindex : t.fileIndex? f.revision.id with
  | some n =>
    -- The file that is there already is of a source at the same place, so it is of the same one.
    rw [Session.register, hindex]
    obtain ⟨hn, hplace, -⟩ := List.findIdx?_eq_some_iff_getElem.1 hindex
    rw [decide_eq_true_eq] at hplace
    obtain ⟨hrevision, hledger⟩ := h.of_place hs (List.getElem_mem hn) hf hplace
    have hold : f.revision.id ∈ ids :=
      h.mem_ids.2 ⟨_, List.getElem_mem hn, congrArg Revision.id hrevision⟩
    rw [if_pos hold, List.append_nil] at hnext
    refine ⟨⟨h.paths, h.cache, hnext ▸ h.stats, hnext ▸ h.registered, h.separate, h.files⟩, n, _,
      rfl, List.getElem?_eq_getElem hn, hrevision, ?_⟩
    rw [hledger]
    rfl
  | none =>
    have htracks : t.tracks f.revision.id = true := by
      have hbefore := (hs.eligible _ (mem_entries hf)).tracked
      rw [tracks, ← h.paths] at hbefore
      exact hbefore
    -- The source still has the token under which its map was saved.
    have hload : t.cache.load f.revision = .ok (some f.ledger.map) := by
      rw [h.cache, Cache.load, Cache.read, if_pos hreadable]
      exact hlists.load_mem (mem_entries hf)
    have hnew : f.revision.id ∉ ids := by
      intro hold
      obtain ⟨g, hg, hid⟩ := h.mem_ids.1 hold
      exact place_ne_of_fileIndex? hindex g hg (congrArg SourceId.place hid)
    rw [if_neg hnew] at hnext
    rw [register_hit hindex htracks (he f hf) hload]
    refine ⟨⟨h.paths, h.cache, ?_, ?_, h.separate.append (place_ne_of_fileIndex? hindex), ?_⟩, _, _,
      rfl, List.getElem?_concat_length .., rfl, rfl⟩
    · rw [hnext, List.length_append]
      show Statistics.mk (t.stats.hits + 1) _ _ _ _ = _
      rw [h.stats]
      rfl
    · rw [hnext, ← h.registered]
      exact List.map_append
    · intro g hg
      rcases List.mem_append.1 hg with hg | hg
      · exact h.files g hg
      · rw [List.mem_singleton.1 hg]
        exact ⟨f, hf, rfl, rfl, rfl⟩

/-- Each source that is asked for again is taken over, by induction on the requests. -/
theorem Resumed.run {asks : List (Surroundings × SourceId)}
    (hasks : ∀ x ∈ asks, Keeps x.1 s.files ∧ ∃ f ∈ s.files, f.revision.id = x.2) :
    Resumed s c (ids ++ asks.map (·.2)) (t.runAmid (asks.map fun x => (x.1, .register x.2))) := by
  induction asks generalizing t ids with
  | nil =>
    rw [List.map_nil, List.append_nil]
    exact h
  | cons x rest ih =>
    obtain ⟨⟨hkeeps, f, hf, hid⟩, hrest⟩ := List.forall_mem_cons.1 hasks
    have hnext := (h.register hs hreadable hlists hkeeps hf).1
    rw [hid] at hnext
    rw [List.map_cons, List.append_cons]
    exact ih hnext hrest

end

/-- A session that has been resumed: whichever source of the first one is registered next, its
    file has the revision and the map that it had; and when all of them are registered, the
    bundle is that of the first session. -/
structure Served (s : Session) (c : Cache) (ids : List SourceId) (t : Session) : Prop
    extends Resumed s c ids t where
  answer : ∀ e f, Keeps e s.files → f ∈ s.files → ∃ n g,
    (t.register e f.revision.id).1 = .ok n ∧ (t.register e f.revision.id).2.files[n]? = some g
      ∧ g.revision = f.revision ∧ g.ledger.map = f.ledger.map
  exported : (∀ f ∈ s.files, f.revision.id ∈ ids) → t.exportBundle = s.exportBundle

/-- With a cache a session hands on all that it has analysed to sessions with the same paths, in
    which its sources are registered in any order. -/
def HandsOn (s : Session) (c : Cache) : Prop :=
  ∀ (settings : Settings) (asks : List (Surroundings × SourceId)),
    settings.pathSet = s.settings.pathSet →
    (∀ x ∈ asks, Keeps x.1 s.files ∧ ∃ f ∈ s.files, f.revision.id = x.2) →
    Served s c (asks.map (·.2))
      ((start settings c).runAmid (asks.map fun x => (x.1, .register x.2)))

/-- A cache with the entries of a session hands them on. -/
theorem Mirrored.handsOn (hs : Mirrored s) (hreadable : c.isReadable = true)
    (hlists : c.store.Lists s.entries) : HandsOn s c := by
  intro settings asks hpaths hasks
  have h := (resumed_start (s := s) (c := c) hpaths).run hs hreadable hlists hasks
  rw [List.nil_append] at h
  exact ⟨h, fun e f he hf => (h.register hs hreadable hlists he hf).2, h.exportBundle_eq hs⟩

/-- A session and its cache export the same bundle. -/
theorem Mirrored.exportBundle_eq (hs : Mirrored s) :
    s.cache.read Store.exportBundle = .ok s.exportBundle := by
  rw [Cache.read, if_pos hs.readable]
  exact hs.lists.exportBundle fun a ha => SourceId.text_ne_empty (hs.eligible a ha).named

/-- The bundle of a session can be read, and has its maps. -/
theorem Mirrored.ofBundle (hs : Mirrored s) (hkeys : s.KeysDiffer)
    (hrange : ∀ a ∈ s.entries, a.1.freshness.InRange ∧ a.2.Fits) :
    ∃ store, Store.ofBundle (Text.Utf8.encode s.exportBundle) = .ok store
      ∧ store.Lists s.entries := by
  apply Store.lists_ofBundle hs.lists.keys
  · intro a ha
    obtain ⟨hfreshness, hfits⟩ := hrange a ha
    obtain ⟨hnamed, -, hgiven, hregular⟩ := hs.eligible a ha
    exact ⟨hnamed, hgiven.valid hfreshness, hregular, hfits⟩
  · exact fun a ha => (hs.eligible a ha).regular.distinct (hkeys a ha)

/-- At every moment of a session that began with an empty cache, the bundle of the cache is that
    of the session; and both the cache and the bundle hand on all that has been analysed, the
    bundle as long as its lines have 32 bits and its seconds 64. -/
theorem handed_on {settings : Settings} {steps : List (Surroundings × Step)} (hc : c.Fresh)
    (hsteps : ∀ x ∈ steps, ∀ id, x.2.source? = some id → SourceId.ofText? id.text = some id)
    (hs : s = (start settings c).runAmid steps) (hkeys : s.KeysDiffer) :
    s.cache.read Store.exportBundle = .ok s.exportBundle
      ∧ HandsOn s s.cache
      ∧ ((∀ a ∈ s.entries, a.1.freshness.InRange ∧ a.2.Fits) →
          ∃ store, Store.ofBundle (Text.Utf8.encode s.exportBundle) = .ok store
            ∧ HandsOn s (.memory store)) := by
  subst hs
  have h := (mirrored_start settings hc).run hsteps hkeys
  refine ⟨h.exportBundle_eq, h.handsOn h.readable h.lists, fun hrange => ?_⟩
  obtain ⟨store, hstore, hlists⟩ := h.ofBundle hkeys hrange
  exact ⟨store, hstore, h.handsOn rfl hlists⟩

/-- A script with a function and a decision. -/
def shortProgram : Script.Program where
  body :=
    [.spanning 1 3 (.function .declaration (some "f") []
      (.spanning 1 3 (.block [.spanning 2 2 (.statement [])]))),
    .spanning 4 5 (.conditional (.spanning 4 4 (.expression [])) (.spanning 5 5 (.statement []))
      none)]

/-- The map of this script. -/
def shortMap : SiteMap :=
  ⟨[2, 4, 5], [⟨4, 0, [5]⟩], [⟨"f:1:0", 1, 3, some 2⟩]⟩

/-- Two scripts, of which the empty one does not parse. -/
def twoScripts : Surroundings where
  engine := fun source filename =>
    if source = "" then .error (.notProgram filename) else .ok shortProgram
  workspace := ⟨["work"], [(["d"], .directory), (["d", "a.js"], .file (.plain [10]) 5000),
    (["d", "b.js"], .file (.plain []) 7000)], 0⟩
  archive := .empty

/-- The first script is registered, the second one cannot be; then the first one is met under
    another spelling. -/
def bothMet : List (Surroundings × Step) :=
  [(twoScripts, .register (.file "/d/a.js")), (twoScripts, .onLine (.file "/d/b.js") 1),
    (twoScripts, .onLine (.file "/d//a.js") 4), (twoScripts, .countCall 0 "f:1:0")]

/-- The session in which both scripts were met. -/
def metBoth : Session :=
  (start ⟨["/d/"], none⟩ .inMemory).runAmid bothMet

theorem metBoth_facts : metBoth.settings.pathSet = ["/d/"]
    ∧ metBoth.files.map (fun f => (f.revision, f.bytes))
      = [(⟨.file "/d/a.js", .modified 0 5⟩, [10])]
    ∧ metBoth.entries = [(⟨.file "/d/a.js", .modified 0 5⟩, shortMap)] := by
  -- The registration is done by hand, with the map put in place; the rest can be computed.
  have hmap : SiteMap.ofProgram shortProgram = shortMap := by cbv
  have hparse : twoScripts.engine (Text.Utf8.lossy [10]) "/d/a.js" = .ok shortProgram := by
    rw [show Text.Utf8.lossy [10] = "\n" by decide +kernel]
    rfl
  have hcontent : twoScripts.content (.file "/d/a.js")
      = .ok (⟨.file "/d/a.js", .modified 0 5⟩, [10]) := by decide +kernel
  have hfirst := register_parsed (s := start ⟨["/d/"], none⟩ .inMemory) (by decide) (by decide)
    hcontent (by decide +kernel) hparse
  rw [hmap] at hfirst
  rw [metBoth, bothMet, runAmid, List.foldl_cons]
  dsimp only [take]
  rw [hfirst]
  decide +kernel

/-- The next session finds the script in the cache, and writes the same bundle if it began with
    that bundle. -/
theorem handed_on_metBoth :
    metBoth.cache.read Store.exportBundle = .ok metBoth.exportBundle
      ∧ ((start ⟨["/d/"], some "out"⟩ metBoth.cache).runAmid
          [(twoScripts, .register (.file "/d/a.js"))]).stats = ⟨1, 0, 0, 0, 0⟩
      ∧ ∃ store, Store.ofBundle (Text.Utf8.encode metBoth.exportBundle) = .ok store
        ∧ ((start ⟨["/d/"], none⟩ (.memory store)).runAmid
            [(twoScripts, .register (.file "/d/a.js"))]).exportBundle = metBoth.exportBundle := by
  obtain ⟨hpaths, hfiles, hentries⟩ := metBoth_facts
  have hfresh : Cache.inMemory.Fresh := ⟨rfl, rfl, Store.undamaged_empty, rfl⟩
  have hnamed : ∀ x ∈ bothMet, ∀ id, x.2.source? = some id →
      SourceId.ofText? id.text = some id := by
    simp only [bothMet, List.forall_mem_cons, Step.source?, Option.some.injEq, forall_eq']
    decide
  have hkeys : metBoth.KeysDiffer := by
    rw [KeysDiffer, hentries]
    decide
  have hrange : ∀ a ∈ metBoth.entries, a.1.freshness.InRange ∧ a.2.Fits := by
    rw [hentries, List.forall_mem_singleton]
    exact ⟨⟨by decide, by decide⟩, by decide⟩
  -- All there is to know of the one file that is tracked.
  have hfile (P : Revision → Bytes → Prop) (h : P ⟨.file "/d/a.js", .modified 0 5⟩ [10]) :
      ∀ f ∈ metBoth.files, P f.revision f.bytes := by
    intro f hf
    have hmem := List.mem_map_of_mem (f := fun f => (f.revision, f.bytes)) hf
    rw [hfiles, List.mem_singleton, Prod.mk.injEq] at hmem
    rw [hmem.1, hmem.2]
    exact h
  have hasks : ∀ x ∈ [(twoScripts, SourceId.file "/d/a.js")],
      Keeps x.1 metBoth.files ∧ ∃ f ∈ metBoth.files, f.revision.id = x.2 := by
    rw [List.forall_mem_singleton]
    refine ⟨hfile (fun r bytes => twoScripts.content r.id = .ok (r, bytes)) (by decide +kernel), ?_⟩
    have hids : metBoth.files.map (·.revision.id) = [.file "/d/a.js"] := by
      simpa using congrArg (List.map fun a => a.1.id) hfiles
    exact List.mem_map.1 (hids ▸ List.mem_singleton_self _)
  obtain ⟨hexport, hkept, hbundle⟩ := handed_on hfresh hnamed (s := metBoth) rfl hkeys
  obtain ⟨store, hstore, htaken⟩ := hbundle hrange
  refine ⟨hexport, (hkept ⟨["/d/"], some "out"⟩ _ hpaths.symm hasks).stats, store, hstore, ?_⟩
  refine (htaken ⟨["/d/"], none⟩ _ hpaths.symm hasks).exported ?_
  exact hfile (fun r _ => r.id ∈ [SourceId.file "/d/a.js"]) (by decide)

end Session
end Coverage
