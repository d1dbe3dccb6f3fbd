/-
  Coverage.Proofs.Cache.FiniteMap

  A cache is a map from identities to a token and a canonical site map.

  `Write` is what a step writes to that map, and `surviving` is what is left after some
  steps.  A step on a cache in working order changes the view of its store by its writes and
  nothing else (`take_ok`), so after any run the questions that can be asked of the cache are
  answered by what survived (`Answers`).
-/

import Coverage.Proofs.Cache.Connection
import Coverage.Proofs.Cache.InUse

namespace Coverage

namespace Cache

open Text.Utf8 (ofString)

/-! ## Steps -/

/-- What may be done to a cache that is used by itself. -/
inductive Step where
  | save (r : Revision) (m : SiteMap)
  | remove (id : SourceId)
  | clear
  | importBundle (bytes : Bytes)
  /-- The database is opened beside the connection that is in use. -/
  | reopen
  /-- The connection is closed, and the database opened again. -/
  | reconnect

/-- Whether a step opens the database. -/
def Step.opens : Step → Bool
  | .reopen => true
  | .reconnect => true
  | _ => false

/-- Whether a cache is kept in a database. -/
def isConnected : Cache → Bool
  | .memory _ => false
  | .connected _ => true

/-- The cache after a step, with the files. -/
def take (p : Cache × Workspace) : Step → Except Fault (Cache × Workspace)
  | .save r m => do return (← p.1.save r m, p.2)
  | .remove id => do return ((← p.1.change fun s => .ok (s.remove id)).2, p.2)
  | .clear => do return ((← p.1.change fun s => .ok s.clear).2, p.2)
  | .importBundle bytes => do return ((← p.1.change (·.importBundle bytes)).2, p.2)
  | .reopen => .ok (p.1.reopen p.2)
  | .reconnect => .ok (openFile (p.1.close p.2))

/-- The cache after some steps, if all of them succeed. -/
def run (p : Cache × Workspace) (steps : List Step) : Except Fault (Cache × Workspace) :=
  steps.foldlM take p

/-! ## What is written -/

/-- A map from identities to a token and a site map. -/
abbrev Contents := String → Option (Freshness × SiteMap)

/-- One change of such a map. -/
inductive Write where
  | put (r : Revision) (m : SiteMap)
  | erase (id : SourceId)
  | eraseAll

/-- The map after a change. -/
def Write.apply (contents : Contents) : Write → Contents
  | .put r m => fun key =>
    if key = r.id.text then some (r.freshness, m.canonical) else contents key
  | .erase id => fun key => if key = id.text then none else contents key
  | .eraseAll => fun _ => none

/-- What a step writes: a bundle writes its entries one by one. -/
def Step.writes : Step → List Write
  | .save r m => [.put r m]
  | .remove id => [.erase id]
  | .clear => [.eraseAll]
  | .importBundle bytes =>
    match Bundle.decode bytes with
    | .ok entries => entries.map fun e => .put e.1 e.2
    | .error _ => []
  | .reopen => []
  | .reconnect => []

/-- What is left of the writes of some steps, the last one for each identity. -/
def surviving (steps : List Step) : Contents :=
  (steps.flatMap Step.writes).foldl Write.apply fun _ => none

/-! ## Caches in working order -/

/-- A cache whose store is undamaged; one in a database has its files in order. -/
structure Working (p : Cache × Workspace) : Prop where
  undamaged : p.1.store.Undamaged
  settled : ∀ link, p.1 = .connected link → link.Settled p.2

variable {p p' : Cache × Workspace} {c' : Cache} {s : Store}

theorem Working.isReadable (h : Working p) : p.1.isReadable = true := by
  obtain ⟨c, w⟩ := p
  cases c with
  | memory s => rfl
  | connected link => exact (h.settled link rfl).readable

theorem Working.isWritable (h : Working p) : p.1.isWritable = true := by
  obtain ⟨c, w⟩ := p
  cases c with
  | memory s => rfl
  | connected link => exact (h.settled link rfl).writable

/-- What is asked of a cache in working order is asked of its store. -/
theorem Working.read_eq {α : Type} (h : Working p) (f : Store → Except Fault α) :
    p.1.read f = f p.1.store :=
  if_pos h.isReadable

/-- A change of a cache in working order is a change of its store. -/
theorem Working.change_ok {α : Type} (h : Working p) {f : Store → Except Fault (α × Store)}
    {a : α} : p.1.change f = .ok (a, c') ↔ ∃ s, f p.1.store = .ok (a, s) ∧ c' = p.1.setStore s := by
  rw [change_eq_ok_iff, h.isReadable, h.isWritable]
  simp only [true_and]

/-- A save to a cache in working order is a save to its store. -/
theorem Working.save_ok (h : Working p) {r : Revision} {m : SiteMap} :
    p.1.save r m = .ok c' ↔ ∃ s, p.1.store.save r m = .ok s ∧ c' = p.1.setStore s := by
  rw [save_eq_ok_iff, h.isReadable, h.isWritable]
  simp only [true_and]

/-! ## One step -/

/-- A cache after a change of its store is in working order if the new store is. -/
theorem Working.setStore (h : Working p) (hs : s.Undamaged) :
    Working (p.1.setStore s, p.2) := by
  obtain ⟨c, w⟩ := p
  refine ⟨by rw [store_setStore]; exact hs, fun link hlink => ?_⟩
  cases c with
  | memory old => cases hlink
  | connected old =>
    cases hlink
    exact (h.settled old rfl).setStore s

theorem isConnected_setStore (c : Cache) (s : Store) :
    (c.setStore s).isConnected = c.isConnected := by
  cases c <;> rfl

/-- Entries that are saved one by one are written one by one. -/
theorem view_saves {entries : List (Revision × SiteMap)} {s s' : Store} (hs : s.Undamaged)
    (h : entries.foldlM (fun s e => s.save e.1 e.2) s = .ok s') :
    s'.view = (entries.map fun e => Write.put e.1 e.2).foldl Write.apply s.view := by
  induction entries generalizing s with
  | nil =>
    rw [List.foldlM_nil] at h
    rw [← Except.ok.inj h]
    rfl
  | cons e rest ih =>
    rw [List.foldlM_cons] at h
    obtain ⟨t, ht, hrest⟩ := bind_eq_ok.1 h
    have hview : t.view = Write.apply s.view (.put e.1 e.2) :=
      funext (Store.view_save hs.sound ht)
    rw [ih (hs.save ht) hrest, hview]
    rfl

/-- What is kept by a step: the cache is in working order, has been written to, and is still
    where it was. -/
structure Taken (p p' : Cache × Workspace) (writes : List Write) : Prop where
  working : Working p'
  view : p'.1.store.view = writes.foldl Write.apply p.1.store.view
  connected : p'.1.isConnected = p.1.isConnected

/-- A step that puts an undamaged store in place of the old one leaves the files as they are. -/
theorem Working.taken (h : Working p) (hs : s.Undamaged) {writes : List Write}
    (hview : s.view = writes.foldl Write.apply p.1.store.view) :
    Taken p (p.1.setStore s, p.2) writes where
  working := h.setStore hs
  view := by
    rw [store_setStore]
    exact hview
  connected := isConnected_setStore _ _

/-- A step writes what it is to write, and nothing else. -/
theorem take_ok (h : Working p) {x : Step} (hdisk : x.opens → p.1.isConnected)
    (hok : take p x = .ok p') : Taken p p' x.writes := by
  have hundamaged := h.undamaged
  cases x with
  | save r m =>
    obtain ⟨c, hc, heq⟩ := bind_eq_ok.1 hok
    obtain ⟨s, hs, rfl⟩ := h.save_ok.1 hc
    cases heq
    exact h.taken (hundamaged.save hs) (funext (Store.view_save hundamaged.sound hs))
  | remove id =>
    obtain ⟨⟨removed, c⟩, hc, heq⟩ := bind_eq_ok.1 hok
    obtain ⟨s, hs, rfl⟩ := h.change_ok.1 hc
    cases heq
    cases hs
    exact h.taken (hundamaged.remove id) (funext (Store.view_remove hundamaged.sound id))
  | clear =>
    obtain ⟨⟨count, c⟩, hc, heq⟩ := bind_eq_ok.1 hok
    obtain ⟨s, hs, rfl⟩ := h.change_ok.1 hc
    cases heq
    cases hs
    exact h.taken hundamaged.clear (funext (Store.view_clear hundamaged.sound))
  | importBundle bytes =>
    obtain ⟨⟨count, c⟩, hc, heq⟩ := bind_eq_ok.1 hok
    obtain ⟨s, hs, rfl⟩ := h.change_ok.1 hc
    cases heq
    obtain ⟨es, hes, -, hfold⟩ := Store.importBundle_ok hs
    have hwrites : (Step.importBundle bytes).writes = es.map fun e => Write.put e.1 e.2 := by
      rw [Step.writes, hes]
    -- The entries are saved one by one, so each of them is a write of its own.
    rw [hwrites]
    exact h.taken (hundamaged.importBundle hs) (view_saves hundamaged hfold)
  | reopen =>
    obtain ⟨c, w⟩ := p
    cases c with
    | memory s => cases hdisk rfl
    | connected link =>
      -- The new connection shares the store of the old one.
      have hsame := (h.settled link rfl).reopen_eq hundamaged
      rw [take, hsame] at hok
      cases hok
      exact ⟨h, rfl, rfl⟩
  | reconnect =>
    obtain ⟨c, w⟩ := p
    cases c with
    | memory s => cases hdisk rfl
    | connected link =>
      -- What was closed is found at home, and nothing is left in the log.
      obtain ⟨link', w', hopen, hstore, hsettled⟩ :=
        (h.settled link rfl).openFile_close hundamaged
      rw [take, show close (.connected link) w = link.close w from rfl, hopen] at hok
      cases hok
      refine ⟨⟨?_, fun link hlink => ?_⟩, ?_, rfl⟩
      · show link'.store.Undamaged
        rw [hstore]
        exact hundamaged
      · cases hlink
        exact hsettled
      · show link'.store.view = link.store.view
        rw [hstore]

/-! ## Runs -/

/-- Whether all steps that open the database are taken by a cache that is kept in it. -/
def Fits (c : Cache) (steps : List Step) : Prop :=
  ∀ x ∈ steps, x.opens → c.isConnected

/-- A run that succeeds has made the writes of its steps, one after another. -/
theorem run_ok (h : Working p) {steps : List Step} (hfits : Fits p.1 steps)
    (hok : run p steps = .ok p') : Taken p p' (steps.flatMap Step.writes) := by
  induction steps generalizing p with
  | nil =>
    cases hok
    exact ⟨h, rfl, rfl⟩
  | cons x rest ih =>
    rw [run, List.foldlM_cons] at hok
    obtain ⟨q, hq, hrest⟩ := bind_eq_ok.1 hok
    have hstep := take_ok h (hfits x List.mem_cons_self) hq
    have hfitsRest : Fits q.1 rest := fun y hy => by
      rw [hstep.connected]
      exact hfits y (List.mem_cons_of_mem x hy)
    have hrun := ih hstep.working hfitsRest hrest
    refine ⟨hrun.working, ?_, hrun.connected.trans hstep.connected⟩
    rw [hrun.view, hstep.view, List.flatMap_cons, List.foldl_append]

/-! ## Answers -/

/-- The map of a revision in such contents: what stands under its identity, if its token is
    the one of the revision. -/
def Contents.map? (contents : Contents) (r : Revision) : Option SiteMap :=
  (contents r.id.text).bind fun v => if v.1 = r.freshness then some v.2 else none

/-- The entries of such contents, as they are listed: each identity once, in ascending order
    of its bytes. -/
structure Lists (contents : Contents) (es : List (String × Freshness)) : Prop where
  ascending : es.Pairwise fun a b => ofString a.1 < ofString b.1
  mem_iff : ∀ key f, (key, f) ∈ es ↔ ∃ m, contents key = some (f, m)

/-- A bundle of such contents: the entries that are listed, each with its map. -/
structure Bundles (contents : Contents) (es : List (String × Freshness))
    (l : List (Revision × SiteMap)) : Prop where
  entries : l.map (fun e => (e.1.id.text, e.1.freshness)) = es
  maps : ∀ e ∈ l, contents e.1.id.text = some (e.1.freshness, e.2)

/-- The cache with some entries saved one by one. -/
def saveAll (c : Cache) (entries : List (Revision × SiteMap)) : Except Fault Cache :=
  entries.foldlM (fun c e => c.save e.1 e.2) c

/-- All that is asked of a cache is answered as some contents have it. -/
structure Answers (p : Cache × Workspace) (contents : Contents) : Prop where
  load : ∀ r, p.1.load r = .ok (contents.map? r)
  remove : ∀ id, ∃ c, p.1.change (fun s => .ok (s.remove id)) = .ok ((contents id.text).isSome, c)
    ∧ ∀ r, c.load r = if r.id.text = id.text then .ok none else p.1.load r
  listed : ∃ es, Lists contents es ∧ p.1.read Store.entries = .ok es
    ∧ (∃ c, p.1.change (fun s => .ok s.clear) = .ok (es.length, c) ∧ ∀ r, c.load r = .ok none)
    ∧ (contents "" = none →
      ∃ l, Bundles contents es l ∧ p.1.read Store.exportBundle = .ok (Bundle.encode l))
  unnamed : (contents "").isSome → p.1.read Store.exportBundle = .error (.missing "")
  imported : ∀ bytes n c, p.1.change (·.importBundle bytes) = .ok (n, c) →
    ∃ es, Bundle.decode bytes = .ok es ∧ n = es.length
      ∧ ∃ c', p.1.saveAll es = .ok c' ∧ c'.store = c.store
  reopened : p.1.isConnected → p.1.reopen p.2 = p
    ∧ (openFile (p.1.close p.2)).1.store = p.1.store

/-- A revision is looked up in the view of the store. -/
theorem Working.load_eq (h : Working p) (r : Revision) :
    p.1.load r = .ok (Contents.map? p.1.store.view r) := by
  rw [load, h.read_eq]
  exact h.undamaged.load_eq r

/-- An import is what saving its entries one by one comes to. -/
theorem Working.saveAll_ok (h : Working p) {entries : List (Revision × SiteMap)}
    (hok : entries.foldlM (fun s e => s.save e.1 e.2) p.1.store = .ok s) :
    ∃ c, p.1.saveAll entries = .ok c ∧ c.store = s := by
  unfold saveAll
  induction entries generalizing p with
  | nil =>
    rw [List.foldlM_nil] at hok ⊢
    exact ⟨p.1, rfl, Except.ok.inj hok⟩
  | cons e rest ih =>
    rw [List.foldlM_cons] at hok
    obtain ⟨t, ht, hrest⟩ := bind_eq_ok.1 hok
    have hsaved : p.1.save e.1 e.2 = .ok (p.1.setStore t) := h.save_ok.2 ⟨t, ht, rfl⟩
    have hworking : Working (p.1.setStore t, p.2) := h.setStore (h.undamaged.save ht)
    rw [← store_setStore p.1 t] at hrest
    obtain ⟨c, hc, hstore⟩ := ih hworking hrest
    refine ⟨c, ?_, hstore⟩
    rw [List.foldlM_cons, hsaved, ok_bind]
    exact hc

/-- A cache in working order answers as the view of its store has it. -/
theorem Working.answers (h : Working p) : Answers p p.1.store.view := by
  have hundamaged := h.undamaged
  obtain ⟨es, hentries, hascending, hmem, hlength⟩ := hundamaged.entries_eq
  -- In this order: removal, the list, clearing, the bundle with its one obstacle, imports, and
  -- what a second connection finds.
  refine ⟨h.load_eq, fun id => ?_, ⟨es, ⟨hascending, hmem⟩, ?_, ?_, fun hempty => ?_⟩,
    fun hempty => ?_, fun bytes n c hok => ?_, fun hdisk => ?_⟩
  · refine ⟨p.1.setStore (p.1.store.remove id).2, ?_, fun r => ?_⟩
    · refine h.change_ok.2 ⟨_, ?_, rfl⟩
      rw [← hundamaged.remove_eq]
    · have hview := Store.view_remove hundamaged.sound id r.id.text
      rw [(h.setStore (hundamaged.remove id)).load_eq, h.load_eq, store_setStore, Contents.map?,
        hview, Contents.map?]
      split
      · rfl
      · rfl
  · rw [h.read_eq]
    exact hentries
  · refine ⟨p.1.setStore p.1.store.clear.2, h.change_ok.2 ⟨_, ?_, rfl⟩, fun r => ?_⟩
    · rw [hlength]
      rfl
    · have hview := Store.view_clear hundamaged.sound r.id.text
      rw [(h.setStore hundamaged.clear).load_eq, store_setStore, Contents.map?, hview]
      rfl
  · obtain ⟨l, hexport, hlisted, hmaps⟩ :=
      Store.exportBundle_eq hentries (fun key f => (hmem key f).1) hempty
    refine ⟨l, ⟨hlisted, hmaps⟩, ?_⟩
    rw [h.read_eq]
    exact hexport
  · rw [h.read_eq]
    exact Store.exportBundle_eq_error hentries hmem hempty
  · obtain ⟨s, hs, rfl⟩ := h.change_ok.1 hok
    obtain ⟨entries, hdecode, hcount, hfold⟩ := Store.importBundle_ok hs
    obtain ⟨c, hc, hstore⟩ := h.saveAll_ok hfold
    refine ⟨entries, hdecode, hcount, c, hc, ?_⟩
    rw [hstore, store_setStore]
  · obtain ⟨c, w⟩ := p
    cases c with
    | memory s => cases hdisk
    | connected link =>
      have hsettled := h.settled link rfl
      obtain ⟨link', w', hopen, hstore, -⟩ := hsettled.openFile_close hundamaged
      refine ⟨hsettled.reopen_eq hundamaged, ?_⟩
      rw [show close (.connected link) w = link.close w from rfl, hopen]
      exact hstore

/-! ## Where runs begin -/

/-- A cache in memory is in working order, whatever the files are. -/
theorem working_inMemory (w : Workspace) : Working (.inMemory, w) where
  undamaged := Store.undamaged_empty
  settled := fun _ hlink => by cases hlink

/-- Where there is no database, an empty one is opened. -/
theorem openFile_vacant {w : Workspace} (h : Database.Vacant w) :
    Working (openFile w) ∧ (openFile w).1.store = .empty := by
  obtain ⟨link, w', hopen, hstore, hsettled⟩ := Connection.openFile_vacant h
  rw [hopen]
  refine ⟨⟨?_, fun other hother => ?_⟩, hstore⟩
  · show link.store.Undamaged
    rw [hstore]
    exact Store.undamaged_empty
  · cases hother
    exact hsettled

/-- After any run from an empty cache, all that is asked is answered by the writes that
    survived it. -/
theorem run_answers (hworking : Working p) (hempty : p.1.store = .empty) {steps : List Step}
    (hfits : Fits p.1 steps) (hok : run p steps = .ok p') : Answers p' (surviving steps) := by
  have htaken := run_ok hworking hfits hok
  have hview : p'.1.store.view = surviving steps := by
    rw [htaken.view, hempty]
    rfl
  rw [← hview]
  exact htaken.working.answers

/-- A file is saved, and again after a change; the database is opened anew between. -/
def savedTwice : List Step :=
  [.save ⟨.file "a.js", .modified 1 2⟩ ⟨[1], [], []⟩,
    .save ⟨.resource "resource://b.js", .digest "ab"⟩ ⟨[7], [], []⟩, .reconnect,
    .save ⟨.file "a.js", .modified 1 3⟩ ⟨[3, 2], [], []⟩,
    .remove (.resource "resource://b.js"), .reopen]

/-- Only the last map is found, in a database as in memory, where none is opened. -/
theorem run_answers_savedTwice :
    (∃ p, run (openFile (Workspace.empty 0)) savedTwice = .ok p
      ∧ p.1.load ⟨.file "a.js", .modified 1 3⟩ = .ok (some (SiteMap.canonical ⟨[3, 2], [], []⟩))
      ∧ p.1.load ⟨.file "a.js", .modified 1 2⟩ = .ok none
      ∧ p.1.load ⟨.resource "resource://b.js", .digest "ab"⟩ = .ok none)
      ∧ ∃ p, run (.inMemory, .empty 0) (savedTwice.filter (!·.opens)) = .ok p
        ∧ p.1.load ⟨.file "a.js", .modified 1 3⟩
          = .ok (some (SiteMap.canonical ⟨[3, 2], [], []⟩)) := by
  have hstart := openFile_vacant (Database.vacant_empty 0 ["work"])
  obtain ⟨p, hrun⟩ : ∃ p, run (openFile (Workspace.empty 0)) savedTwice = .ok p := ⟨_, rfl⟩
  have hanswers := run_answers hstart.1 hstart.2 (fun _ _ _ => rfl) hrun
  obtain ⟨q, hrunq⟩ : ∃ q, run (.inMemory, .empty 0) (savedTwice.filter (!·.opens)) = .ok q :=
    ⟨_, rfl⟩
  have hfits : Fits .inMemory (savedTwice.filter (!·.opens)) := by
    intro x hx hopens
    have hcloses := (List.mem_filter.1 hx).2
    rw [hopens] at hcloses
    cases hcloses
  have hanswersq := run_answers (working_inMemory _) rfl hfits hrunq
  exact ⟨⟨p, hrun, hanswers.load _, hanswers.load _, hanswers.load _⟩, q, hrunq, hanswersq.load _⟩

end Cache
end Coverage
