/-
  Coverage.Proofs.Cache.Reimport

  A store and what comes back of it from its bundle have the same bundle.

  A store need not come back as it was: the exits of its maps may be numbered in any way, and
  come back numbered in a row.  But a bundle does not show more of an entry than its token and
  its record (`exportBundle_of_records`), and these come back (`Exportable.records_reimported`).

  `Exportable` is what every entry must be like for that.  Saves of proper entries and bundles
  of any bytes keep it (`Exportable.take`), so it holds after every run of them, and the
  export and the import that follow cannot fail.
-/

import Coverage.Proofs.Bundle.Carried
import Coverage.Proofs.Cache.Answers
import Coverage.Proofs.Cache.Transaction

namespace Coverage.Cache.Store

open Text.Utf8 (ofString ofString_lt_ofString)
open Coverage.Bundle (carried)

variable {s s' t : Store}

/-! ## What a bundle shows -/

/-- What a bundle shows of the entry of an identity: its token and its record. -/
def record? (s : Store) (key : String) : Option (Freshness × Bundle.Record) :=
  (s.view key).map fun v => (v.1, Bundle.Record.of v.1 v.2)

/-- Lists that agree in one respect agree in another that depends on it. -/
theorem map_eq_map_of {α β γ : Type} {f : α → β} {g : α → γ} {as bs : List α}
    (h : as.map f = bs.map f) (hg : ∀ a ∈ as, ∀ b ∈ bs, f a = f b → g a = g b) :
    as.map g = bs.map g := by
  induction as generalizing bs with
  | nil =>
    rw [List.map_nil] at h
    rw [List.map_eq_nil_iff.1 h.symm]
  | cons a rest ih =>
    cases bs with
    | nil => cases h
    | cons b bs =>
      obtain ⟨hab, hrest⟩ := List.cons.inj h
      have hfirst : g a = g b := hg a List.mem_cons_self b List.mem_cons_self hab
      have hothers : rest.map g = bs.map g := ih hrest fun c hc d hd =>
        hg c (List.mem_cons_of_mem a hc) d (List.mem_cons_of_mem b hd)
      rw [List.map_cons, List.map_cons, hfirst, hothers]

/-- An identity has a record exactly if it has an entry that can be read. -/
theorem record?_eq_none {key : String} : s.record? key = none ↔ s.view key = none :=
  Option.map_eq_none_iff

theorem exists_record? {key : String} {f : Freshness} :
    (∃ r, s.record? key = some (f, r)) ↔ ∃ m, s.view key = some (f, m) := by
  constructor
  · rintro ⟨r, h⟩
    obtain ⟨⟨g, m⟩, hview, heq⟩ := Option.map_eq_some_iff.1 h
    cases heq
    exact ⟨m, hview⟩
  · rintro ⟨m, hview⟩
    exact ⟨Bundle.Record.of f m, by rw [record?, hview]; rfl⟩

/-- Stores of the same records have the same bundle. -/
theorem exportBundle_of_records (hs : s.Undamaged) (ht : t.Undamaged) (hempty : s.view "" = none)
    (h : ∀ key, s.record? key = t.record? key) : s.exportBundle = t.exportBundle := by
  obtain ⟨es, hes, hascending, hmem, -⟩ := hs.entries_eq
  obtain ⟨es', hes', hascending', hmem', -⟩ := ht.entries_eq
  -- The entries are listed alike.
  have hlisted : es = es' := by
    apply Keyed.eq_of_mem_iff (hascending.imp ofString_lt_ofString.1)
      (hascending'.imp ofString_lt_ofString.1)
    rintro ⟨key, f⟩
    rw [hmem, hmem', ← exists_record?, ← exists_record?, h key]
  subst hlisted
  have hempty' : t.view "" = none := by
    rw [← record?_eq_none, ← h "", record?_eq_none]
    exact hempty
  obtain ⟨l, hexport, hl, hview⟩ := exportBundle_eq hes (fun k f => (hmem k f).1) hempty
  obtain ⟨l', hexport', hl', hview'⟩ := exportBundle_eq hes' (fun k f => (hmem' k f).1) hempty'
  -- Entries that are listed alike have one record, as there is one under each identity.
  have hrecords : l.map (fun e => (e.1.id.text, Bundle.Record.of e.1.freshness e.2))
      = l'.map fun e => (e.1.id.text, Bundle.Record.of e.1.freshness e.2) := by
    refine map_eq_map_of (hl.trans hl'.symm) fun e he e' he' heq => ?_
    obtain ⟨htext, -⟩ := Prod.mk.inj heq
    have hsame := h e.1.id.text
    rw [record?, hview e he, record?, htext, hview' e' he'] at hsame
    exact Prod.ext htext (Prod.mk.inj (Option.some.inj hsame)).2
  rw [hexport, hexport', Bundle.encode, Bundle.encode, Bundle.recordsOf, Bundle.recordsOf, hrecords]

/-! ## Stores that can be exported -/

/-- An entry is what can be read under its identity. -/
def Holds (s : Store) (e : Revision × SiteMap) : Prop :=
  s.view e.1.id.text = some (e.1.freshness, e.2)

/-- Every entry of a store can be carried by a bundle, and be taken by another store. -/
structure Exportable (s : Store) : Prop where
  undamaged : s.Undamaged
  entries : ∀ e, s.Holds e → Proper e ∧ e.2.canonical = e.2
  functions : ∀ e, s.Holds e → (e.2.functions.map FunctionSpan.key).Nodup

/-- An empty store can be carried by a bundle. -/
theorem exportable_empty : empty.Exportable where
  undamaged := undamaged_empty
  entries := fun _ he => by cases he
  functions := fun _ he => by cases he

/-- The empty identity has no entry. -/
theorem Exportable.view_empty (h : s.Exportable) : s.view "" = none := by
  cases hview : s.view "" with
  | none => rfl
  | some v =>
    have hholds : s.Holds (⟨.file "", v.1⟩, v.2) := hview
    exact absurd rfl (h.entries _ hholds).1.named

/-- Fewer entries can be exported as well. -/
theorem Exportable.mono (h : s.Exportable) (hundamaged : s'.Undamaged)
    (hview : ∀ e, s'.Holds e → s.Holds e) : s'.Exportable where
  undamaged := hundamaged
  entries := fun e he => h.entries e (hview e he)
  functions := fun e he => h.functions e (hview e he)

/-- A proper entry may be saved. -/
theorem Exportable.save (h : s.Exportable) {r : Revision} {m : SiteMap} (hproper : Proper (r, m))
    (hok : s.save r m = .ok s') : s'.Exportable := by
  have hsound := h.undamaged.sound
  have hdistinct : m.Distinct := ((save_isOk_iff hsound r m).1 ⟨s', hok⟩).2
  -- What can be read afterwards is the new entry, or an old one.
  have hcases : ∀ e, s'.Holds e →
      (e.1.id.text = r.id.text ∧ e.1.freshness = r.freshness ∧ e.2 = m.canonical) ∨ s.Holds e := by
    intro e he
    rw [Holds, view_save hsound hok] at he
    split at he
    · rename_i hkey
      obtain ⟨hf, hm⟩ := Prod.mk.inj (Option.some.inj he)
      exact .inl ⟨hkey, hf.symm, hm.symm⟩
    · exact .inr he
  refine ⟨h.undamaged.save hok, fun e he => ?_, fun e he => ?_⟩
  · rcases hcases e he with ⟨hkey, hf, hm⟩ | hold
    · have hcanonical := hproper.canonical
      refine ⟨⟨?_, ?_, ?_, ?_⟩, ?_⟩
      · rw [hkey]
        exact hproper.named
      · rw [hf]
        exact hproper.token
      · rw [hm]
        exact hcanonical.fits
      · rw [hm]
        exact hcanonical.spans
      · rw [hm]
        exact SiteMap.canonical_canonical m
    · exact h.entries e hold
  · rcases hcases e he with ⟨-, -, hm⟩ | hold
    · rw [hm]
      exact (((List.mergeSort_perm _ _).map _).nodup_iff).2 hdistinct.functions
    · exact h.functions e hold

/-- Proper entries may be saved one after another. -/
theorem Exportable.saves (h : s.Exportable) {entries : List (Revision × SiteMap)}
    (hproper : ∀ e ∈ entries, Proper e)
    (hok : entries.foldlM (fun s e => s.save e.1 e.2) s = .ok s') : s'.Exportable :=
  foldlM_keeps (fun _ e he _ hs hsave => hs.save (hproper e he) hsave) h hok

/-- Entries may be removed. -/
theorem Exportable.remove (h : s.Exportable) (id : SourceId) : (s.remove id).2.Exportable := by
  apply h.mono (h.undamaged.remove id)
  intro e he
  rw [Holds, view_remove h.undamaged.sound] at he
  split at he
  · cases he
  · exact he

/-- All entries may be removed. -/
theorem Exportable.clear (h : s.Exportable) : s.clear.2.Exportable := by
  apply h.mono h.undamaged.clear
  intro e he
  rw [Holds, view_clear h.undamaged.sound] at he
  cases he

/-! ## Runs -/

/-- A step that damages nothing and saves only proper entries. -/
def Step.Proper : Step → Prop
  | .change (.save r m) => Coverage.Proper (r, m)
  | .damage _ => False
  | _ => True

instance : DecidablePred Step.Proper
  | .change (.save r m) => inferInstanceAs (Decidable (Coverage.Proper (r, m)))
  | .damage _ => inferInstanceAs (Decidable False)
  | .change (.importBundle _) | .remove _ | .clear | .reopen => inferInstanceAs (Decidable True)

/-- Any proper step leaves a store that can be carried. -/
theorem Exportable.take (h : s.Exportable) {x : Step} (hx : x.Proper) : (s.take x).Exportable := by
  cases x with
  | change c =>
    -- A write that fails leaves the store as it was.
    show (s.perform c).2.Exportable
    rw [perform_eq]
    cases hresult : c.result s with
    | error f => exact h
    | ok s' =>
      cases c with
      | save r m => exact h.save hx hresult
      | importBundle bytes =>
        obtain ⟨⟨n, t⟩, himport, heq⟩ := bind_eq_ok.1 hresult
        cases heq
        obtain ⟨es, hdecode, -, hsaves⟩ := importBundle_ok himport
        exact h.saves (Bundle.proper_decode hdecode) hsaves
  | remove id => exact h.remove id
  | clear => exact h.clear
  | damage d => cases hx
  | reopen =>
    show s.opened.Exportable
    rw [h.undamaged.opened]
    exact h

/-- After proper steps a store can be carried by a bundle. -/
theorem Exportable.run (h : s.Exportable) {steps : List Step} (hsteps : ∀ x ∈ steps, x.Proper) :
    (s.run steps).Exportable := by
  induction steps generalizing s with
  | nil => exact h
  | cons x rest ih =>
    have hfirst : (s.take x).Exportable := h.take (hsteps x List.mem_cons_self)
    exact ih hfirst fun y hy => hsteps y (List.mem_cons_of_mem x hy)

/-! ## Coming back -/

section

variable {entries : List (Revision × SiteMap)}

/-- Entries that are saved one by one leave those of other identities alone. -/
theorem view_saves_of_not_mem (h : s.tables.Sound)
    (hok : entries.foldlM (fun s e => s.save e.1 e.2) s = .ok s') {key : String}
    (hkey : key ∉ entries.map (·.1.id.text)) : s'.view key = s.view key := by
  induction entries generalizing s with
  | nil =>
    rw [List.foldlM_nil] at hok
    rw [Except.ok.inj hok]
  | cons e rest ih =>
    rw [List.foldlM_cons] at hok
    obtain ⟨t, ht, hrest⟩ := bind_eq_ok.1 hok
    rw [List.map_cons, List.mem_cons, not_or] at hkey
    rw [ih (sound_save h ht) hrest hkey.2, view_save h ht, if_neg hkey.1]

/-- Entries of different identities that are saved one by one are all there. -/
theorem view_saves_of_mem (h : s.tables.Sound)
    (hok : entries.foldlM (fun s e => s.save e.1 e.2) s = .ok s')
    (hkeys : (entries.map (·.1.id.text)).Nodup) {e : Revision × SiteMap} (he : e ∈ entries) :
    s'.view e.1.id.text = some (e.1.freshness, e.2.canonical) := by
  induction entries generalizing s with
  | nil => exact absurd he List.not_mem_nil
  | cons d rest ih =>
    rw [List.foldlM_cons] at hok
    obtain ⟨t, ht, hrest⟩ := bind_eq_ok.1 hok
    rw [List.map_cons, List.nodup_cons] at hkeys
    rcases List.mem_cons.1 he with rfl | he
    · rw [view_saves_of_not_mem (sound_save h ht) hrest hkeys.1, view_save h ht, if_pos rfl]
    · exact ih (sound_save h ht) hrest hkeys.2 he

end

/-- What is carried of an entry of a store can be taken by any store. -/
theorem Exportable.distinct_carried (h : s.Exportable) {e : Revision × SiteMap} (he : s.Holds e) :
    (carried e).2.Distinct := by
  obtain ⟨hproper, hcanonical⟩ := h.entries e he
  have hregular : (carried e).2.Regular := Bundle.regular_renumbered ⟨hcanonical, hproper.spans⟩
  exact hregular.distinct (h.functions e he)

/-- The entries of a store in order of identity, as they are exported. -/
structure Exports (s : Store) (entries : List (Revision × SiteMap)) : Prop where
  ascending : entries.Pairwise fun a b => ofString a.1.id.text < ofString b.1.id.text
  held : ∀ e ∈ entries, s.Holds e
  all : ∀ key f m, s.view key = some (f, m) → ∃ e ∈ entries, e.1.id.text = key

/-- A store that can be carried is exported: its entries in order, each of them once. -/
theorem Exportable.exports (h : s.Exportable) :
    ∃ entries, s.Exports entries ∧ s.exportBundle = .ok (Bundle.encode entries) := by
  obtain ⟨es, hes, hascending, hmem, -⟩ := h.undamaged.entries_eq
  obtain ⟨entries, hexport, hlisted, hheld⟩ :=
    exportBundle_eq hes (fun k f => (hmem k f).1) h.view_empty
  refine ⟨entries, ⟨?_, hheld, ?_⟩, hexport⟩
  · rw [← hlisted, List.pairwise_map] at hascending
    exact hascending
  · intro key f m hview
    have hin : (key, f) ∈ es := (hmem key f).2 ⟨m, hview⟩
    rw [← hlisted] at hin
    obtain ⟨e, he, heq⟩ := List.mem_map.1 hin
    exact ⟨e, he, (Prod.mk.inj heq).1⟩

section

variable {entries : List (Revision × SiteMap)} (h : s.Exportable) (hexports : s.Exports entries)

include h hexports

theorem Exportable.text_carried {e : Revision × SiteMap} (he : e ∈ entries) :
    (carried e).1.id.text = e.1.id.text :=
  (Bundle.ofText?_carried (h.entries e (hexports.held e he)).1).2

/-- Entries that have been carried have different identities still. -/
theorem Exportable.nodup_carried : ((entries.map carried).map (·.1.id.text)).Nodup := by
  rw [List.map_map, List.Nodup, List.pairwise_map]
  refine hexports.ascending.imp_of_mem fun {a b} ha hb hab heq => ?_
  have hsame : a.1.id.text = b.1.id.text :=
    (h.text_carried hexports ha).symm.trans (heq.trans (h.text_carried hexports hb))
  rw [ofString_lt_ofString, hsame] at hab
  exact String.lt_irrefl _ hab

/-- Token and record of every entry come back, and no other entries do. -/
theorem Exportable.records_reimported
    (hok : (entries.map carried).foldlM (fun s e => s.save e.1 e.2) empty = .ok s') (key : String) :
    s.record? key = s'.record? key := by
  have hnodup := h.nodup_carried hexports
  cases hview : s.view key with
  | none =>
    have hnew : key ∉ (entries.map carried).map (·.1.id.text) := by
      intro hmem
      obtain ⟨_, hc, rfl⟩ := List.mem_map.1 hmem
      obtain ⟨e, he, rfl⟩ := List.mem_map.1 hc
      have hheld : s.view e.1.id.text = some (e.1.freshness, e.2) := hexports.held e he
      rw [h.text_carried hexports he, hheld] at hview
      cases hview
    have hnone : s'.view key = none := view_saves_of_not_mem Tables.sound_empty hok hnew
    rw [record?_eq_none.2 hview, record?_eq_none.2 hnone]
  | some v =>
    obtain ⟨e, he, rfl⟩ := hexports.all key v.1 v.2 hview
    have hheld : s.view e.1.id.text = some (e.1.freshness, e.2) := hexports.held e he
    obtain ⟨hproper, hcanonical⟩ := h.entries e hheld
    have horderly : Bundle.Orderly e.2 := ⟨hcanonical, hproper.spans⟩
    have hback := view_saves_of_mem Tables.sound_empty hok hnodup (List.mem_map_of_mem he)
    rw [h.text_carried hexports he] at hback
    rw [record?, hheld, record?, hback]
    -- The renumbered map is canonical already, and has the record of the old one.
    have hrecord : Bundle.Record.of e.1.freshness (carried e).2.canonical
        = Bundle.Record.of e.1.freshness e.2 := by
      show Bundle.Record.of _ e.2.renumbered.canonical = _
      rw [(Bundle.regular_renumbered horderly).canonical, Bundle.of_renumbered horderly]
    exact congrArg some (Prod.ext rfl hrecord.symm)

end

/-- The bundle of a store that can be exported makes a store of the same bundle. -/
theorem Exportable.reimport (h : s.Exportable) :
    ∃ text, s.exportBundle = .ok text ∧ ∃ s', ofBundle (Text.Utf8.encode text) = .ok s'
      ∧ s'.exportBundle = .ok text := by
  obtain ⟨entries, hexports, hexport⟩ := h.exports
  have hdecode := Bundle.decode_encode (fun e he => h.entries e (hexports.held e he))
    hexports.ascending
  -- No entry can be refused, so the new store has all of them.
  have htaken : ∀ e ∈ entries.map carried, empty.refuses = false ∧ e.2.Distinct := by
    intro e he
    obtain ⟨a, ha, rfl⟩ := List.mem_map.1 he
    exact ⟨rfl, h.distinct_carried (hexports.held a ha)⟩
  obtain ⟨s', hs'⟩ := (saves_isOk_iff Tables.sound_empty).2 htaken
  have himport : empty.importBundle (Text.Utf8.encode (Bundle.encode entries))
      = .ok ((entries.map carried).length, s') :=
    bind_eq_ok.2 ⟨_, hdecode, bind_eq_ok.2 ⟨s', hs', rfl⟩⟩
  refine ⟨Bundle.encode entries, hexport, s', bind_eq_ok.2 ⟨_, himport, rfl⟩, ?_⟩
  -- Both stores have the same records, so the second bundle is the first.
  rw [← exportBundle_of_records h.undamaged (undamaged_empty.importBundle himport) h.view_empty
    (h.records_reimported hexports hs')]
  exact hexport

/-- Whatever is saved, imported and removed, the bundle of the store that is left can be
    imported, and gives the same bundle again. -/
theorem reimport_run {steps : List Step} (h : ∀ x ∈ steps, x.Proper) :
    ∃ text, (empty.run steps).exportBundle = .ok text
      ∧ ∃ s', ofBundle (Text.Utf8.encode text) = .ok s' ∧ s'.exportBundle = .ok text :=
  (exportable_empty.run h).reimport

/-- Maps whose lists are in no order and whose exits leave out numbers are saved, and one of
    them is removed again. -/
def gapped : List Step :=
  [.change (.save ⟨.resource "resource://b.js", .digest "0aF"⟩
      ⟨[7, 3, 3], [⟨3, 9, [7, 4]⟩, ⟨3, 2, []⟩, ⟨1, 5, []⟩],
        [⟨"g:3:0", 3, 7, some 4⟩, ⟨"f:1:0", 1, 1, none⟩]⟩),
    .change (.save ⟨.file "c.js", .modified 1 2⟩ ⟨[1], [], []⟩),
    .change (.importBundle [0x7B]), .remove (.file "c.js"),
    .change (.save ⟨.file "a.js", .modified (-1) 999999⟩ ⟨[2], [⟨2, 1, []⟩], []⟩)]

/-- Maps with numbers left out come back the same, and are exported the same again. -/
theorem reimport_run_gapped :
    (∀ x ∈ gapped, x.Proper)
      ∧ ∃ text, (empty.run gapped).exportBundle = .ok text
        ∧ ∃ s', ofBundle (Text.Utf8.encode text) = .ok s' ∧ s'.exportBundle = .ok text := by
  have hproper : ∀ x ∈ gapped, x.Proper := by
    decide
  exact ⟨hproper, reimport_run hproper⟩

end Coverage.Cache.Store
