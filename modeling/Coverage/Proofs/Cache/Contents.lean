/-
  Coverage.Proofs.Cache.Contents

  Stores whose entries are known.

  `Lists` says which entries can be read from an undamaged store, each under an identity of
  its own.  It is all that is needed to tell what a load finds (`Lists.load_mem`) and what the
  bundle of the store is (`Lists.exportBundle`), since neither depends on the order in which
  the entries were saved.  A save under a new identity adds an entry (`Lists.save`), and a
  store that is made of the bundle of some entries has just these (`lists_ofBundle`).
-/

import Coverage.Proofs.Cache.Reimport

namespace Coverage

namespace Bundle

/-- Entries in any order have the same text, as each stands under its own identity. -/
theorem encode_of_mem_iff {as bs : List (Revision × SiteMap)}
    (has : (as.map (·.1.id.text)).Nodup) (hbs : (bs.map (·.1.id.text)).Nodup)
    (h : ∀ e, (∃ a ∈ as, (a.1.id.text, Record.of a.1.freshness a.2) = e)
      ↔ ∃ b ∈ bs, (b.1.id.text, Record.of b.1.freshness b.2) = e) : encode as = encode bs := by
  have hmem (es : List (Revision × SiteMap)) (hes : (es.map (·.1.id.text)).Nodup)
      (e : String × Record) : e ∈ recordsOf es
        ↔ ∃ a ∈ es, (a.1.id.text, Record.of a.1.freshness a.2) = e := by
    have hkeys : ((es.map fun a => (a.1.id.text, Record.of a.1.freshness a.2)).map
        Prod.fst).Nodup := by
      rw [List.map_map]
      exact hes
    rw [recordsOf, (Keyed.perm_ofList hkeys).mem_iff, List.mem_map]
  have hrecords : recordsOf as = recordsOf bs := by
    apply Keyed.eq_of_mem_iff (Keyed.ascending_ofList _) (Keyed.ascending_ofList _)
    intro e
    rw [← recordsOf, ← recordsOf, hmem as has, hmem bs hbs, h e]
  rw [encode, encode, hrecords]

end Bundle

namespace Cache.Store

variable {s s' : Store} {entries : List (Revision × SiteMap)} {e : Revision × SiteMap}

/-- An undamaged store has some entries, each under its own identity, and no others. -/
structure Lists (s : Store) (entries : List (Revision × SiteMap)) : Prop where
  undamaged : s.Undamaged
  keys : (entries.map (·.1.id.text)).Nodup
  view : ∀ key f m, s.view key = some (f, m)
    ↔ ∃ e ∈ entries, e.1.id.text = key ∧ e.1.freshness = f ∧ e.2 = m

theorem lists_nil (h : s.Undamaged) (hempty : s.tables.entries = []) : s.Lists [] where
  undamaged := h
  keys := List.Pairwise.nil
  view := fun key f m => by
    have hnone : s.view key = none := view_of_find?_none (by rw [Tables.find?, hempty]; rfl)
    simp [hnone]

section

variable (h : s.Lists entries)

include h

/-- An entry that is listed can be read. -/
theorem Lists.view_mem (he : e ∈ entries) :
    s.view e.1.id.text = some (e.1.freshness, e.2) :=
  (h.view _ _ _).2 ⟨e, he, rfl, rfl, rfl⟩

/-- Of an identity that is not listed nothing can be read. -/
theorem Lists.view_not_mem {key : String} (hkey : key ∉ entries.map (·.1.id.text)) :
    s.view key = none := by
  cases hview : s.view key with
  | none => rfl
  | some v =>
    obtain ⟨e, he, htext, -, -⟩ := (h.view key v.1 v.2).1 hview
    exact absurd (List.mem_map.2 ⟨e, he, htext⟩) hkey

/-- The map of an entry is found as long as its token is the same. -/
theorem Lists.load_mem (he : e ∈ entries) : s.load e.1 = .ok (some e.2) := by
  rw [h.undamaged.load_eq, h.view_mem he, Option.bind_some, if_pos rfl]

/-- A revision of an identity that is not listed is missed. -/
theorem Lists.load_not_mem {r : Revision} (hr : r.id.text ∉ entries.map (·.1.id.text)) :
    s.load r = .ok none := by
  rw [h.undamaged.load_eq, h.view_not_mem hr]
  rfl

/-- A canonical map that is saved under a new identity is one more entry. -/
theorem Lists.save {r : Revision} {m : SiteMap} (hr : r.id.text ∉ entries.map (·.1.id.text))
    (hm : m.canonical = m) (hok : s.save r m = .ok s') : s'.Lists (entries ++ [(r, m)]) where
  undamaged := h.undamaged.save hok
  keys := by
    rw [List.map_append, List.nodup_append]
    refine ⟨h.keys, List.pairwise_singleton _ _, fun a ha b hb hab => ?_⟩
    rw [List.map_singleton, List.mem_singleton] at hb
    exact hr (hb ▸ hab ▸ ha)
  view := fun key f found => by
    rw [view_save h.undamaged.sound hok, hm]
    simp only [List.mem_append, List.mem_singleton, or_and_right, exists_or, exists_eq_left]
    split
    · rename_i hkey
      -- No older entry stands under the identity.
      have hold : ¬∃ e ∈ entries, e.1.id.text = key ∧ e.1.freshness = f ∧ e.2 = found := by
        rintro ⟨e, he, htext, -, -⟩
        exact hr (List.mem_map.2 ⟨e, he, htext.trans hkey⟩)
      rw [or_iff_right hold, Option.some.injEq, Prod.mk.injEq]
      exact ⟨fun heq => ⟨hkey.symm, heq⟩, fun heq => heq.2⟩
    · rename_i hkey
      rw [h.view, or_iff_left fun heq => hkey heq.1.symm]

/-- The bundle of a store is that of its entries, in whatever order they were saved. -/
theorem Lists.exportBundle (hnamed : ∀ e ∈ entries, e.1.id.text ≠ "") :
    s.exportBundle = .ok (Bundle.encode entries) := by
  have hempty : s.view "" = none := by
    apply h.view_not_mem
    intro hmem
    obtain ⟨e, he, htext⟩ := List.mem_map.1 hmem
    exact hnamed e he htext
  obtain ⟨es, hes, hascending, hmem, -⟩ := h.undamaged.entries_eq
  obtain ⟨l, hexport, hlisted, hview⟩ := exportBundle_eq hes (fun k f => (hmem k f).1) hempty
  have hkeys : (l.map (·.1.id.text)).Nodup := by
    rw [← hlisted, List.pairwise_map] at hascending
    refine List.pairwise_map.2 (hascending.imp fun hlt heq => ?_)
    rw [Text.Utf8.ofString_lt_ofString, heq] at hlt
    exact String.lt_irrefl _ hlt
  -- A bundle is in order of identity, so only the members of the two lists are to be compared.
  rw [hexport, Bundle.encode_of_mem_iff hkeys h.keys]
  rintro ⟨key, r⟩
  constructor
  · rintro ⟨a, ha, heq⟩
    obtain ⟨e, he, htext, hfresh, hmap⟩ := (h.view _ _ _).1 (hview a ha)
    exact ⟨e, he, by rw [htext, hfresh, hmap, heq]⟩
  · rintro ⟨e, he, heq⟩
    have hin : (e.1.id.text, e.1.freshness) ∈ es := (hmem _ _).2 ⟨e.2, h.view_mem he⟩
    rw [← hlisted] at hin
    obtain ⟨a, ha, hpair⟩ := List.mem_map.1 hin
    obtain ⟨htext, hfresh⟩ := Prod.mk.inj hpair
    have hsame := hview a ha
    rw [htext, h.view_mem he] at hsame
    refine ⟨a, ha, ?_⟩
    rw [htext, hfresh, ← (Prod.mk.inj (Option.some.inj hsame)).2, heq]

end

/-- A store that is made of the bundle of some entries has these entries. -/
theorem lists_ofBundle (hkeys : (entries.map (·.1.id.text)).Nodup)
    (h : ∀ e ∈ entries, Bundle.Portable e) (hdistinct : ∀ e ∈ entries, e.2.Distinct) :
    ∃ s, ofBundle (Text.Utf8.encode (Bundle.encode entries)) = .ok s ∧ s.Lists entries := by
  obtain ⟨decoded, hdecode, hperm, -⟩ := Bundle.decode_encode_entries hkeys h
  have htaken : ∀ e ∈ decoded, empty.refuses = false ∧ e.2.Distinct := fun e he =>
    ⟨rfl, hdistinct e (hperm.mem_iff.1 he)⟩
  obtain ⟨s, hs⟩ := (saves_isOk_iff Tables.sound_empty).2 htaken
  have himport : empty.importBundle (Text.Utf8.encode (Bundle.encode entries))
      = .ok (decoded.length, s) := bind_eq_ok.2 ⟨decoded, hdecode, bind_eq_ok.2 ⟨s, hs, rfl⟩⟩
  have hdecoded : (decoded.map (·.1.id.text)).Nodup := (hperm.map _).nodup_iff.2 hkeys
  -- Every entry is saved once, and its map is canonical already.
  have hfound : ∀ e ∈ entries, s.view e.1.id.text = some (e.1.freshness, e.2) := by
    intro e he
    rw [view_saves_of_mem Tables.sound_empty hs hdecoded (hperm.mem_iff.2 he),
      (h e he).regular.canonical]
  refine ⟨s, bind_eq_ok.2 ⟨_, himport, rfl⟩, undamaged_empty.importBundle himport, hkeys,
    fun key f m => ⟨fun hview => ?_, ?_⟩⟩
  · by_cases hkey : key ∈ decoded.map (·.1.id.text)
    · obtain ⟨e, he, rfl⟩ := List.mem_map.1 hkey
      rw [hfound e (hperm.mem_iff.1 he)] at hview
      obtain ⟨hfresh, hmap⟩ := Prod.mk.inj (Option.some.inj hview)
      exact ⟨e, hperm.mem_iff.1 he, rfl, hfresh, hmap⟩
    · rw [view_saves_of_not_mem Tables.sound_empty hs hkey] at hview
      cases hview
  · rintro ⟨e, he, rfl, rfl, rfl⟩
    exact hfound e he

end Cache.Store
end Coverage
