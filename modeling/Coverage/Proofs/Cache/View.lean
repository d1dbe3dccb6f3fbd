/-
  Coverage.Proofs.Cache.View

  The cache store as a map from identities to a token and a site map.

  `Tables.slot` reads what stands under an identity out of the five tables: a token, which may
  be damaged, and a map.  `Tables.view` is what of it can be read.  Each operation on a sound
  store has one equation in terms of them (`slot_save`, `view_save`, `view_remove`,
  `view_clear`, `view_damage`).
-/

import Coverage.Cache.Store
import Coverage.Proofs.Cache.Rows

namespace Coverage.Cache

namespace Tables

/-! ## Entries by identity -/

variable {t t' : Tables}

theorem find?_some {id : String} {row : EntryRow} (h : t.find? id = some row) :
    row ∈ t.entries ∧ row.id = id :=
  ⟨List.mem_of_find?_eq_some h, by simpa using List.find?_some h⟩

/-- Identities are keys, so each row is the one that is found under its identity. -/
theorem Sound.find?_of_mem (h : t.Sound) {row : EntryRow} (hrow : row ∈ t.entries) :
    t.find? row.id = some row := by
  cases hfind : t.find? row.id with
  | none =>
    have hnone := List.find?_eq_none.1 hfind row hrow
    simp at hnone
  | some found =>
    obtain ⟨hmem, hid⟩ := find?_some hfind
    rw [List.inj_on_of_nodup_map h.ids hmem hrow hid]

/-- The token of a new row is the one that was written. -/
theorem freshness_rowOf (n : Nat) (r : Revision) : freshness (rowOf n r) = .ok r.freshness := by
  obtain ⟨id, token⟩ := r
  cases token <;> rfl

/-- What stands under an identity: the token, if it can be read, and the map. -/
def slot (t : Tables) (key : String) : Option (Except Fault Freshness × SiteMap) :=
  (t.find? key).map fun row => (freshness row, t.map row.number)

/-- What can be read of the entry of an identity: its token and its map. -/
def view (t : Tables) (key : String) : Option (Freshness × SiteMap) :=
  (t.find? key).bind fun row =>
    (freshness row).toOption.map fun f => (f, t.map row.number)

/-- What can be read under a key is what stands there, if its token can be read. -/
theorem view_eq_slot (t : Tables) (key : String) :
    t.view key = (t.slot key).bind fun v => v.1.toOption.map fun f => (f, v.2) := by
  rw [view, slot, Option.bind_map]
  rfl

/-- What can be read under a key is the token of a row and the map under its number. -/
theorem view_eq_some {key : String} {f : Freshness} {m : SiteMap} :
    t.view key = some (f, m) ↔
      ∃ row, t.find? key = some row ∧ freshness row = .ok f ∧ t.map row.number = m := by
  unfold view
  cases t.find? key with
  | none => simp
  | some row =>
    cases hf : freshness row with
    | error e => simp [Except.toOption, hf]
    | ok g => simp [Except.toOption, hf]

/-! ## The view after a change -/

/-- Whoever removes identities does not find these any more, and finds all others. -/
theorem find?_removeWhere (t : Tables) (p : String → Bool) (key : String) :
    (t.removeWhere fun e => p e.id).find? key = if p key then none else t.find? key := by
  -- Rows of the key are all removed or all kept, since the choice looks at the identity alone.
  rw [find?, removeWhere_entries, List.find?_filter]
  split
  · rename_i hp
    rw [List.find?_eq_none]
    rintro e - he
    simp only [Bool.not_eq_true', decide_eq_true_eq] at he
    rw [he.2, hp] at he
    cases he.1
  · rename_i hp
    rw [find?]
    congr 1
    funext e
    by_cases he : e.id = key
    · simp [he, hp]
    · simp [he]

/-- Removing all entries of some identities leaves nothing under these. -/
theorem slot_removeWhere (h : t.Sound) (p : String → Bool) (key : String) :
    (t.removeWhere fun e => p e.id).slot key = if p key then none else t.slot key := by
  unfold slot
  rw [find?_removeWhere]
  split
  · rfl
  · rename_i hp
    cases hfind : t.find? key with
    | none => rfl
    | some row =>
      obtain ⟨hmem, rfl⟩ := find?_some hfind
      have hstays : row.number ∉ t.numbersOf fun e => p e.id :=
        h.not_mem_numbersOf hmem (by simpa using hp)
      rw [Option.map_some, Option.map_some, map_removeWhere hstays]

/-- Where some identities are removed, the other entries read as before. -/
theorem view_removeWhere (h : t.Sound) (p : String → Bool) (key : String) :
    (t.removeWhere fun e => p e.id).view key = if p key then none else t.view key := by
  rw [view_eq_slot, slot_removeWhere h, view_eq_slot]
  split
  · rfl
  · rfl

/-- A new entry stands under its identity, and changes no other. -/
theorem slot_addEntry (h : t.Sound) {r : Revision} {m : SiteMap}
    (hid : t.find? r.id.text = none) (hok : t.addEntry r m = .ok t') (key : String) :
    t'.slot key = if key = r.id.text then some (.ok r.freshness, m.canonical) else t.slot key := by
  obtain ⟨-, hentries, hself, hothers⟩ := addEntry_ok h hid hok
  -- The new row comes last, so it is found where no other is.
  have hfind : t'.find? key
      = (t.find? key).or (if key = r.id.text then some (rowOf t.nextNumber r) else none) := by
    rw [find?, hentries, List.find?_append, find?]
    by_cases hkey : key = r.id.text
    · simp [hkey, rowOf]
    · have hne : ¬r.id.text = key := fun hc => hkey hc.symm
      simp [hkey, hne, rowOf]
  unfold slot
  rw [hfind]
  split
  · rename_i hkey
    rw [hkey, hid, Option.none_or, Option.map_some, freshness_rowOf]
    show some (Except.ok r.freshness, t'.map t.nextNumber) = _
    rw [hself]
  · rw [Option.or_none]
    cases hold : t.find? key with
    | none => rfl
    | some row =>
      -- The number of the new entry is one that no entry had.
      have hne : row.number ≠ t.nextNumber := fun hn =>
        not_uses_nextNumber t ⟨row, (find?_some hold).1, hn⟩
      rw [Option.map_some, Option.map_some, hothers _ hne]

/-! ## The view after damage -/

theorem damage_id (d : TokenDamage) (row : EntryRow) : (d.apply row).id = row.id := by
  cases d <;> rfl

theorem damage_number (d : TokenDamage) (row : EntryRow) :
    (d.apply row).number = row.number := by
  cases d <;> rfl

/-- A damaged token cannot be read. -/
theorem freshness_damage (d : TokenDamage) (row : EntryRow) :
    freshness (d.apply row) = .error (.corruptEntry row.id) := by
  cases d <;> rfl

/-- The row of an entry after its token may have been damaged. -/
def damagedRow (d : TokenDamage) (id : Option String) (row : EntryRow) : EntryRow :=
  if id.all (row.id = ·) then d.apply row else row

/-- Damage to a token leaves the identity of its row. -/
theorem damagedRow_id (d : TokenDamage) (id : Option String) (row : EntryRow) :
    (damagedRow d id row).id = row.id := by
  unfold damagedRow
  split
  · exact damage_id d row
  · rfl

/-- Damage to a token leaves the number of its row. -/
theorem damagedRow_number (d : TokenDamage) (id : Option String) (row : EntryRow) :
    (damagedRow d id row).number = row.number := by
  unfold damagedRow
  split
  · exact damage_number d row
  · rfl

/-- Damaged tokens break no promise of the tables, which say nothing of tokens. -/
theorem Sound.damage (h : t.Sound) (d : TokenDamage)
    (id : Option String) : (t.damage d id).Sound := by
  -- Neither identities nor numbers change, and these are all that the promises mention.
  have hids : (t.damage d id).entries.map EntryRow.id = t.entries.map EntryRow.id := by
    show (t.entries.map (damagedRow d id)).map EntryRow.id = _
    rw [List.map_map]
    exact List.map_congr_left fun row _ => damagedRow_id d id row
  have hnumbers : (t.damage d id).entries.map EntryRow.number
      = t.entries.map EntryRow.number := by
    show (t.entries.map (damagedRow d id)).map EntryRow.number = _
    rw [List.map_map]
    exact List.map_congr_left fun row _ => damagedRow_number d id row
  have huses : ∀ k, t.Uses k → (t.damage d id).Uses k := by
    rintro k ⟨e, he, rfl⟩
    exact ⟨damagedRow d id e, List.mem_map_of_mem he, damagedRow_number d id e⟩
  exact { h with
    numbers := hnumbers ▸ h.numbers
    ids := hids ▸ h.ids
    lineEntries := fun r hr => huses _ (h.lineEntries r hr)
    exitEntries := fun r hr => huses _ (h.exitEntries r hr)
    functionEntries := fun r hr => huses _ (h.functionEntries r hr) }

/-- After some damage the same rows are found, with their tokens as they are now. -/
theorem find?_damage (t : Tables) (d : TokenDamage) (id : Option String)
    (key : String) : (t.damage d id).find? key = (t.find? key).map (damagedRow d id) := by
  show (t.entries.map (damagedRow d id)).find? (·.id = key) = _
  rw [List.find?_map, find?]
  congr 2
  funext row
  rw [Function.comp_apply, damagedRow_id]

/-- What can be read after a damage could be read before, and was the same. -/
theorem view_damage {d : TokenDamage} {id : Option String}
    {key : String} {v : Freshness × SiteMap} (h : (t.damage d id).view key = some v) :
    t.view key = some v := by
  unfold view at h
  rw [find?_damage] at h
  obtain ⟨row, hrow, h⟩ := Option.bind_eq_some_iff.1 h
  obtain ⟨old, hold, rfl⟩ := Option.map_eq_some_iff.1 hrow
  rw [view, hold, Option.bind_some]
  unfold damagedRow at h
  split at h
  · rw [freshness_damage] at h
    cases h
  · exact h

end Tables

namespace Store

variable {s s' : Store}

/-- What can be read of the entry of an identity. -/
def view (s : Store) (key : String) : Option (Freshness × SiteMap) :=
  s.tables.view key

/-- A save that succeeds has removed the old entry and added the new one. -/
theorem save_ok {r : Revision} {m : SiteMap} (h : s.save r m = .ok s') :
    ∃ t, (s.tables.remove r.id.text).addEntry r m = .ok t ∧ s' = { s with tables := t } := by
  unfold save at h
  split at h
  · cases h
  · obtain ⟨t, ht, h⟩ := bind_eq_ok.1 h
    exact ⟨t, ht, (Except.ok.inj h).symm⟩

/-- An import that succeeds has decoded its bundle and saved the entries one by one. -/
theorem importBundle_ok {bytes : Bytes} {n : Nat} (h : s.importBundle bytes = .ok (n, s')) :
    ∃ es, Bundle.decode bytes = .ok es ∧ n = es.length
      ∧ es.foldlM (fun s e => s.save e.1 e.2) s = .ok s' := by
  obtain ⟨es, hes, h⟩ := bind_eq_ok.1 h
  obtain ⟨t, ht, h⟩ := bind_eq_ok.1 h
  cases h
  exact ⟨es, hes, rfl, ht⟩

theorem find?_remove_self (t : Tables) (id : String) : (t.remove id).find? id = none := by
  have hfind := Tables.find?_removeWhere t (fun k => decide (k = id)) id
  rwa [if_pos (by simp)] at hfind

/-- A save keeps the promises of the tables. -/
theorem sound_save (h : s.tables.Sound) {r : Revision} {m : SiteMap} (hok : s.save r m = .ok s') :
    s'.tables.Sound := by
  obtain ⟨t, ht, rfl⟩ := save_ok hok
  exact (Tables.addEntry_ok (h.removeWhere _) (find?_remove_self _ _) ht).1

/-- What stands under an identity. -/
def slot (s : Store) (key : String) : Option (Except Fault Freshness × SiteMap) :=
  s.tables.slot key

/-- Saving replaces the entry of one identity by one with a canonical map. -/
theorem slot_save (h : s.tables.Sound) {r : Revision} {m : SiteMap} (hok : s.save r m = .ok s')
    (key : String) : s'.slot key
      = if key = r.id.text then some (.ok r.freshness, m.canonical) else s.slot key := by
  obtain ⟨t, ht, rfl⟩ := save_ok hok
  have hremoved := Tables.slot_removeWhere h (fun k => decide (k = r.id.text)) key
  show t.slot key = _
  rw [Tables.slot_addEntry (h.removeWhere _) (find?_remove_self _ _) ht]
  split
  · rfl
  · rename_i hkey
    rw [if_neg (by simpa using hkey)] at hremoved
    exact hremoved

/-- Saving replaces the entry of one identity, and reads back in canonical form. -/
theorem view_save (h : s.tables.Sound) {r : Revision} {m : SiteMap} (hok : s.save r m = .ok s')
    (key : String) :
    s'.view key = if key = r.id.text then some (r.freshness, m.canonical) else s.view key := by
  have hslot : s'.tables.slot key = _ := slot_save h hok key
  rw [view, Tables.view_eq_slot, hslot, view, Tables.view_eq_slot]
  split
  · rfl
  · rfl

/-- Of a removed entry nothing can be read, and of the others what could be read before. -/
theorem view_remove (h : s.tables.Sound) (id : SourceId) (key : String) :
    (s.remove id).2.view key = if key = id.text then none else s.view key := by
  have hview := Tables.view_removeWhere h (fun k => decide (k = id.text)) key
  simp only [decide_eq_true_eq] at hview
  exact hview

/-- After all entries are removed nothing can be read. -/
theorem view_clear (h : s.tables.Sound) (key : String) : s.clear.2.view key = none := by
  have hview := Tables.view_removeWhere h (fun _ => true) key
  rwa [if_pos rfl] at hview

/-! ## Damage and opening -/

/-- Damage of any kind keeps the promises of the tables. -/
theorem sound_damage (h : s.tables.Sound) (d : Damage) : (s.damage d).tables.Sound := by
  cases d with
  | token d id => exact Tables.Sound.damage h d id
  | refuse => exact h
  | foreignVersion v => exact h
  | noVersion => exact h

/-- What can be read after some damage could be read before, and is the same. -/
theorem view_damage {d : Damage} {key : String} {v : Freshness × SiteMap}
    (h : (s.damage d).view key = some v) : s.view key = some v := by
  cases d with
  | token d id => exact Tables.view_damage h
  | refuse => exact h
  | foreignVersion w => exact h
  | noVersion => exact h

/-- Opening a store keeps the promises of its tables. -/
theorem sound_opened (h : s.tables.Sound) : s.opened.tables.Sound := by
  unfold opened
  split
  · split
    · exact h
    · exact Tables.sound_empty
  · exact h

/-- What can be read after opening could be read before: all of it, or nothing. -/
theorem view_opened {key : String} {v : Freshness × SiteMap} (h : s.opened.view key = some v) :
    s.view key = some v := by
  unfold opened at h
  split at h
  · split at h
    · exact h
    · cases h
  · exact h

end Store
end Coverage.Cache
