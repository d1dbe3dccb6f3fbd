/-
  Coverage.Proofs.Cache.Answers

  What an undamaged store answers, in terms of its view.

  A store is undamaged if its tables are sound, every entry has exactly one token, the
  tables are of the version of this library and nothing is refused.  Saving, removing,
  clearing and importing keep it so.  `load_eq`, `remove_eq`, `clear_eq`, `entries_eq` and
  `exportBundle_eq` then say what each question is answered.
-/

import Coverage.Proofs.Cache.View
import Coverage.Proofs.Source.Identity
import Coverage.Proofs.Text.ByteOrder
import Coverage.Proofs.Chain

namespace Coverage.Cache

open Text.Utf8 (ofString ofString_lt_ofString)

namespace Tables

/-! ## The order of entries -/

theorem orderedLE_trans (a b c : EntryRow) :
    (!decide (b.id < a.id)) = true → (!decide (c.id < b.id)) = true →
      (!decide (c.id < a.id)) = true := by
  simp only [Bool.not_eq_true', decide_eq_false_iff_not, String.not_lt]
  exact String.le_trans

theorem orderedLE_total (a b : EntryRow) :
    ((!decide (b.id < a.id)) || !decide (a.id < b.id)) = true := by
  simp only [Bool.or_eq_true, Bool.not_eq_true', decide_eq_false_iff_not, String.not_lt]
  exact String.le_total a.id b.id

/-- Reading the entries in order leaves none out. -/
theorem perm_ordered (t : Tables) : t.ordered.Perm t.entries :=
  List.mergeSort_perm _ _

/-- The rows of sound tables stand in strictly ascending order of identity. -/
theorem Sound.pairwise_ordered {t : Tables} (h : t.Sound) :
    t.ordered.Pairwise fun a b => a.id < b.id := by
  have hle := List.pairwise_mergeSort orderedLE_trans orderedLE_total t.entries
  have hne : t.ordered.Pairwise fun a b => a.id ≠ b.id :=
    ((perm_ordered t).pairwise_iff fun hab => hab.symm).2 (List.pairwise_map.1 h.ids)
  refine (hle.and hne).imp fun {a b} hab => ?_
  have hleab : a.id ≤ b.id := by
    simpa only [Bool.not_eq_true', decide_eq_false_iff_not, String.not_lt] using hab.1
  exact Std.lt_of_le_of_ne hleab hab.2

end Tables

/-- A store that nobody has damaged. -/
structure Store.Undamaged (s : Store) : Prop where
  sound : s.tables.Sound
  accepts : s.refuses = false
  current : s.version = some tableVersion
  readable : ∀ row ∈ s.tables.entries, ∃ f, Tables.freshness row = .ok f

namespace Store

variable {s s' : Store}

/-! ## Staying undamaged -/

theorem undamaged_empty : empty.Undamaged where
  sound := Tables.sound_empty
  accepts := rfl
  current := rfl
  readable := fun _ hrow => absurd hrow List.not_mem_nil

/-- To open an undamaged store changes nothing. -/
theorem Undamaged.opened (h : s.Undamaged) : s.opened = s := by
  rw [Store.opened, h.current]
  rfl

/-- Removing entries does no damage. -/
theorem Undamaged.removeWhere (h : s.Undamaged) (doomed : EntryRow → Bool) :
    Undamaged { s with tables := s.tables.removeWhere doomed } where
  sound := h.sound.removeWhere doomed
  accepts := h.accepts
  current := h.current
  readable := fun row hrow => h.readable row (List.mem_filter.1 hrow).1

theorem Undamaged.remove (h : s.Undamaged) (id : SourceId) : (s.remove id).2.Undamaged :=
  h.removeWhere _

theorem Undamaged.clear (h : s.Undamaged) : s.clear.2.Undamaged :=
  h.removeWhere _

/-- A save writes a token that can be read. -/
theorem Undamaged.save (h : s.Undamaged) {r : Revision} {m : SiteMap}
    (hok : s.save r m = .ok s') : s'.Undamaged := by
  have hsound := sound_save h.sound hok
  obtain ⟨t, ht, rfl⟩ := save_ok hok
  have hremoved := h.removeWhere fun row => decide (row.id = r.id.text)
  refine ⟨hsound, h.accepts, h.current, fun row hrow => ?_⟩
  obtain ⟨-, hentries, -, -⟩ :=
    Tables.addEntry_ok (h.sound.removeWhere _) (find?_remove_self _ _) ht
  rw [show t.entries = _ from hentries, List.mem_append, List.mem_singleton] at hrow
  rcases hrow with hold | rfl
  · exact hremoved.readable row hold
  · exact ⟨_, Tables.freshness_rowOf _ r⟩

/-- An import is a run of saves, and does no damage. -/
theorem Undamaged.importBundle (h : s.Undamaged) {bytes : Bytes} {n : Nat}
    (hok : s.importBundle bytes = .ok (n, s')) : s'.Undamaged := by
  obtain ⟨es, -, -, hfold⟩ := importBundle_ok hok
  exact foldlM_keeps (fun t e _ t' ht hsave => ht.save hsave) h hfold

/-! ## Single entries -/

/-- In an undamaged store all that is found can be read. -/
theorem Undamaged.view_eq (h : s.Undamaged) {key : String} {row : EntryRow}
    (hrow : s.tables.find? key = some row) :
    ∃ f, Tables.freshness row = .ok f ∧ s.view key = some (f, s.tables.map row.number) := by
  obtain ⟨f, hf⟩ := h.readable row (Tables.find?_some hrow).1
  exact ⟨f, hf, Tables.view_eq_some.2 ⟨row, hrow, hf, rfl⟩⟩

theorem view_of_find?_none {key : String} (h : s.tables.find? key = none) :
    s.view key = none := by
  rw [view, Tables.view, h]
  rfl

/-- In an undamaged store an entry is there exactly if it can be read. -/
theorem Undamaged.isSome_find? (h : s.Undamaged) (key : String) :
    (s.tables.find? key).isSome = (s.view key).isSome := by
  cases hrow : s.tables.find? key with
  | none => rw [view_of_find?_none hrow]; rfl
  | some row =>
    obtain ⟨f, -, hview⟩ := h.view_eq hrow
    rw [hview]
    rfl

/-- A map is found under its identity and its token, and under no other. -/
theorem Undamaged.load_eq (h : s.Undamaged) (r : Revision) :
    s.load r
      = .ok ((s.view r.id.text).bind fun v => if v.1 = r.freshness then some v.2 else none) := by
  unfold load
  cases hrow : s.tables.find? r.id.text with
  | none => rw [view_of_find?_none hrow]; rfl
  | some row =>
    obtain ⟨f, hf, hview⟩ := h.view_eq hrow
    simp only [hf, hview, ok_bind, Option.bind_some]
    rfl

/-- A removal says whether there was something to be read. -/
theorem Undamaged.remove_eq (h : s.Undamaged) (id : SourceId) :
    (s.remove id).1 = (s.view id.text).isSome :=
  h.isSome_find? id.text

/-! ## All entries -/

/-- All entries are listed once, in ascending order of the bytes of their identities. -/
theorem Undamaged.entries_eq (h : s.Undamaged) :
    ∃ es, s.entries = .ok es ∧ es.Pairwise (fun a b => ofString a.1 < ofString b.1)
      ∧ (∀ k f, (k, f) ∈ es ↔ ∃ m, s.view k = some (f, m))
      ∧ es.length = s.tables.entries.length := by
  have hmem : ∀ row ∈ s.tables.ordered, row ∈ s.tables.entries := fun row hrow =>
    (Tables.perm_ordered s.tables).mem_iff.1 hrow
  have hlisted : ∀ row ∈ s.tables.ordered, ∃ e : String × Freshness,
      (do return (row.id, ← Tables.freshness row) : Except Fault _) = .ok e := by
    intro row hrow
    obtain ⟨f, hf⟩ := h.readable row (hmem row hrow)
    exact ⟨(row.id, f), by rw [hf]; rfl⟩
  have : Nonempty (String × Freshness) := ⟨("", .digest "")⟩
  obtain ⟨g, hentries, hg⟩ := mapM_eq_ok hlisted
  -- What is listed for a row is its identity and its token.
  have hrowOf : ∀ row ∈ s.tables.ordered,
      (g row).1 = row.id ∧ Tables.freshness row = .ok (g row).2 := by
    intro row hrow
    obtain ⟨f, hf, heq⟩ := bind_eq_ok.1 (hg row hrow)
    rw [← Except.ok.inj heq]
    exact ⟨rfl, hf⟩
  refine ⟨s.tables.ordered.map g, hentries, ?_, fun k f => ⟨?_, ?_⟩, ?_⟩
  · refine List.pairwise_map.2 (h.sound.pairwise_ordered.imp_of_mem fun {a b} ha hb hab => ?_)
    rw [ofString_lt_ofString, (hrowOf a ha).1, (hrowOf b hb).1]
    exact hab
  · intro hkf
    obtain ⟨row, hrow, heq⟩ := List.mem_map.1 hkf
    obtain ⟨hid, hf⟩ := hrowOf row hrow
    rw [heq] at hid hf
    have hfind := h.sound.find?_of_mem (hmem row hrow)
    rw [← hid] at hfind
    exact ⟨_, Tables.view_eq_some.2 ⟨row, hfind, hf, rfl⟩⟩
  · rintro ⟨m, hview⟩
    obtain ⟨row, hfind, hf, -⟩ := Tables.view_eq_some.1 hview
    obtain ⟨hrow, rfl⟩ := Tables.find?_some hfind
    have hlist := (Tables.perm_ordered s.tables).mem_iff.2 hrow
    obtain ⟨hid, hf'⟩ := hrowOf row hlist
    have htoken : (g row).2 = f := Except.ok.inj (hf'.symm.trans hf)
    exact List.mem_map.2 ⟨row, hlist, Prod.ext hid htoken⟩
  · rw [List.length_map]
    exact (Tables.perm_ordered s.tables).length_eq

/-! ## Bundles -/

/-- An entry goes into a bundle with its token and its map, unless its identity is empty. -/
theorem exportEntry_eq {key : String} {f : Freshness} {m : SiteMap}
    (hview : s.view key = some (f, m)) :
    s.exportEntry (key, f) = match SourceId.ofText? key with
      | none => .error (.missing key)
      | some id => .ok (some (⟨id, f⟩, m)) := by
  obtain ⟨row, hfind, -, rfl⟩ := Tables.view_eq_some.1 hview
  cases hid : SourceId.ofText? key with
  | none => simp only [exportEntry, hid]
  | some id => simp only [exportEntry, hfind, hid]

/-- An entry that can be read is exported with its token and its map. -/
theorem exportEntry_eq_ok {key : String} {f : Freshness} {m : SiteMap} (hkey : key ≠ "")
    (hview : s.view key = some (f, m)) :
    ∃ id, id.text = key ∧ s.exportEntry (key, f) = .ok (some (⟨id, f⟩, m)) := by
  obtain ⟨id, hid, htext⟩ := SourceId.exists_ofText? hkey
  refine ⟨id, htext, ?_⟩
  rw [exportEntry_eq hview, hid]

/-- A bundle is made of the exported entries, in the order of their identities. -/
theorem exportBundle_of_entries {es : List (String × Freshness)} (hes : s.entries = .ok es) :
    s.exportBundle = do return Bundle.encode ((← es.mapM s.exportEntry).filterMap id) := by
  rw [exportBundle, hes, ok_bind]

theorem map_filterMap_of_some {α β : Type} {g : α → Option β} {key : β → α} {as : List α}
    (h : ∀ a ∈ as, ∃ b, g a = some b ∧ key b = a) : ((as.map g).filterMap id).map key = as := by
  induction as with
  | nil => rfl
  | cons a rest ih =>
    obtain ⟨b, hb, hkey⟩ := h a List.mem_cons_self
    have hrest := ih fun a' ha' => h a' (List.mem_cons_of_mem a ha')
    rw [List.map_cons, hb, List.filterMap_cons, id, List.map_cons, hrest, hkey]

/-- A bundle has the entries that are listed, each with its map. -/
theorem exportBundle_eq {es : List (String × Freshness)} (hes : s.entries = .ok es)
    (hview : ∀ k f, (k, f) ∈ es → ∃ m, s.view k = some (f, m)) (hempty : s.view "" = none) :
    ∃ l, s.exportBundle = .ok (Bundle.encode l)
      ∧ l.map (fun e => (e.1.id.text, e.1.freshness)) = es
      ∧ ∀ e ∈ l, s.view e.1.id.text = some (e.1.freshness, e.2) := by
  have hentry : ∀ e ∈ es, ∃ found, (found.1.id.text, found.1.freshness) = e
      ∧ s.view found.1.id.text = some (found.1.freshness, found.2)
      ∧ s.exportEntry e = .ok (some found) := by
    intro (key, f) he
    obtain ⟨m, hm⟩ := hview key f he
    have hkey : key ≠ "" := by
      rintro rfl
      rw [hempty] at hm
      cases hm
    obtain ⟨id, rfl, hok⟩ := exportEntry_eq_ok hkey hm
    exact ⟨(⟨id, f⟩, m), rfl, hm, hok⟩
  have : Nonempty (Option (Revision × SiteMap)) := ⟨none⟩
  obtain ⟨g, hmap, hg⟩ := mapM_eq_ok fun e he =>
    (hentry e he).elim fun found h => ⟨some found, h.2.2⟩
  -- Nothing that is listed is passed over, so the bundle has an entry for each.
  have hsome : ∀ e ∈ es, ∃ found, g e = some found
      ∧ (found.1.id.text, found.1.freshness) = e
      ∧ s.view found.1.id.text = some (found.1.freshness, found.2) := by
    intro e he
    obtain ⟨found, htext, hfound, hok⟩ := hentry e he
    exact ⟨found, Except.ok.inj ((hg e he).symm.trans hok), htext, hfound⟩
  refine ⟨(es.map g).filterMap id, ?_, ?_, ?_⟩
  · rw [exportBundle_of_entries hes, hmap]
    rfl
  · refine map_filterMap_of_some fun e he => ?_
    obtain ⟨found, hfound, htext, -⟩ := hsome e he
    exact ⟨found, hfound, htext⟩
  · intro e he
    obtain ⟨_, he, rfl⟩ := List.mem_filterMap.1 he
    obtain ⟨e', he', heq⟩ := List.mem_map.1 he
    obtain ⟨found, hfound, -, hmap'⟩ := hsome e' he'
    rw [hfound] at heq
    cases heq
    exact hmap'

/-- There is no bundle of a store in which the empty identity has an entry. -/
theorem exportBundle_eq_error {es : List (String × Freshness)} (hes : s.entries = .ok es)
    (hview : ∀ k f, (k, f) ∈ es ↔ ∃ m, s.view k = some (f, m))
    (hempty : (s.view "").isSome) : s.exportBundle = .error (.missing "") := by
  have hall : ∀ e ∈ es, s.exportEntry e = .error (.missing "")
      ∨ ∃ found, s.exportEntry e = .ok found := by
    intro (key, f) he
    obtain ⟨m, hm⟩ := (hview key f).1 he
    by_cases hkey : key = ""
    · subst hkey
      exact .inl (exportEntry_eq hm)
    · obtain ⟨id, -, hok⟩ := exportEntry_eq_ok hkey hm
      exact .inr ⟨_, hok⟩
  obtain ⟨⟨f, m⟩, hm⟩ := Option.isSome_iff_exists.1 hempty
  have hbad : s.exportEntry ("", f) = .error (.missing "") := exportEntry_eq hm
  rw [exportBundle_of_entries hes,
    mapM_eq_error hall ⟨("", f), (hview "" f).2 ⟨m, hm⟩, hbad⟩, error_bind]

end Store
end Coverage.Cache
