/-
  Coverage.Proofs.Cache.Alike

  Caches that answer alike, whatever numbers their entries have.

  What a cache answers depends on what stands under the keys that it is asked for, and on
  whether it can be read and changed at all.  `Alike keys` says that two caches agree in that
  for some keys.  A save that is done on both keeps it (`Alike.save`); a save under another
  key on one of them does too (`alike_save`), since that it is one more entry among others,
  with a number that others might have had, is not seen from any other key.
-/

import Coverage.Proofs.Cache.Acceptance
import Coverage.Proofs.Cache.Answers
import Coverage.Proofs.Cache.InUse
import Coverage.Proofs.Keyed

namespace Coverage.Cache

namespace Store

variable {s t : Store}

/-! ## Stores with the same slots -/

theorem load_eq_slot (s : Store) (r : Revision) :
    s.load r = match s.slot r.id.text with
      | none => .ok none
      | some (f, m) => do return if (← f) = r.freshness then some m else none := by
  unfold load slot Tables.slot
  cases s.tables.find? r.id.text with
  | none => rfl
  | some row => rfl

/-- Two stores with the same slot answer a revision of that identity alike. -/
theorem load_of_slot {r : Revision} (h : s.slot r.id.text = t.slot r.id.text) :
    s.load r = t.load r := by
  rw [load_eq_slot, load_eq_slot, h]

theorem isSome_find?_eq_slot (s : Store) (key : String) :
    (s.tables.find? key).isSome = (s.slot key).isSome := by
  rw [slot, Tables.slot, Option.isSome_map]

theorem exportEntry_eq_slot (s : Store) (e : String × Freshness) :
    s.exportEntry e = match SourceId.ofText? e.1 with
      | none => .error (.missing e.1)
      | some id => .ok ((s.slot e.1).map fun v => (⟨id, e.2⟩, v.2)) := by
  unfold exportEntry slot Tables.slot
  cases SourceId.ofText? e.1 with
  | none => rfl
  | some id =>
    cases s.tables.find? e.1 with
    | none => rfl
    | some row => rfl

/-- The identities of a store in order, each with its token as far as it can be read. -/
def tokens (s : Store) : List (String × Except Fault Freshness) :=
  s.tables.ordered.map fun row => (row.id, Tables.freshness row)

/-- The entries are read token by token, and the first that cannot be read stops them. -/
theorem entries_eq_tokens (s : Store) :
    s.entries = s.tokens.mapM fun p => do return (p.1, ← p.2) := by
  rw [entries, tokens, List.mapM_map]
  rfl

/-- Identities are listed in ascending order, each once. -/
theorem ascending_tokens (h : s.tables.Sound) : Keyed.Ascending s.tokens :=
  List.pairwise_map.2 h.pairwise_ordered

/-- An identity is listed with the token that stands in its slot. -/
theorem mem_tokens (h : s.tables.Sound) {key : String} {f : Except Fault Freshness} :
    (key, f) ∈ s.tokens ↔ ∃ m, s.slot key = some (f, m) := by
  constructor
  · intro hin
    obtain ⟨row, hrow, heq⟩ := List.mem_map.1 hin
    cases heq
    have hfind := h.find?_of_mem ((Tables.perm_ordered _).mem_iff.1 hrow)
    exact ⟨s.tables.map row.number, by rw [slot, Tables.slot, hfind]; rfl⟩
  · rintro ⟨m, hslot⟩
    obtain ⟨row, hfind, heq⟩ := Option.map_eq_some_iff.1 hslot
    obtain ⟨hrow, rfl⟩ := Tables.find?_some hfind
    cases heq
    exact List.mem_map.2 ⟨row, (Tables.perm_ordered _).mem_iff.2 hrow, rfl⟩

section

variable (hs : s.tables.Sound) (ht : t.tables.Sound) (h : ∀ key, s.slot key = t.slot key)

include hs ht h

/-- Entries are listed in order of identity, in whatever order they were saved. -/
theorem entries_of_slots : s.entries = t.entries := by
  have htokens : s.tokens = t.tokens := by
    -- Both lists ascend and have the same members, whatever order the rows are in.
    apply Keyed.eq_of_mem_iff (ascending_tokens hs) (ascending_tokens ht)
    rintro ⟨key, f⟩
    rw [mem_tokens hs, mem_tokens ht, h key]
  rw [entries_eq_tokens, entries_eq_tokens, htokens]

/-- Stores with the same slots are exported to the same bundle. -/
theorem exportBundle_of_slots : s.exportBundle = t.exportBundle := by
  have hentry : s.exportEntry = t.exportEntry := by
    funext e
    rw [exportEntry_eq_slot, exportEntry_eq_slot, h e.1]
  rw [exportBundle, exportBundle, entries_of_slots hs ht h, hentry]

end

end Store

/-! ## Caches -/

/-- As much can be asked of two caches, and they have the same slots under some keys. -/
structure Alike (keys : String → Prop) (c d : Cache) : Prop where
  readable : c.isReadable = d.isReadable
  writable : c.isWritable = d.isWritable
  refuses : c.store.refuses = d.store.refuses
  slot : ∀ key, keys key → c.store.slot key = d.store.slot key
  sound : c.store.tables.Sound
  sound' : d.store.tables.Sound

variable {keys : String → Prop} {c c' d d' : Cache} {r : Revision} {m : SiteMap}

/-- A cache is like itself, if its rows are in order. -/
theorem alike_self (h : c.store.tables.Sound) : Alike keys c c :=
  ⟨rfl, rfl, rfl, fun _ _ => rfl, h, h⟩

theorem Alike.symm (h : Alike keys c d) : Alike keys d c :=
  ⟨h.readable.symm, h.writable.symm, h.refuses.symm, fun key hkey => (h.slot key hkey).symm,
    h.sound', h.sound⟩

theorem Alike.trans (h : Alike keys c d) (h' : Alike keys d d') : Alike keys c d' :=
  ⟨h.readable.trans h'.readable, h.writable.trans h'.writable, h.refuses.trans h'.refuses,
    fun key hkey => (h.slot key hkey).trans (h'.slot key hkey), h.sound, h'.sound'⟩

/-- Caches that are alike answer alike for the keys in which they are. -/
theorem Alike.load_eq (h : Alike keys c d) (hkey : keys r.id.text) : c.load r = d.load r := by
  rw [load, load, read, read, h.readable, Store.load_of_slot (h.slot _ hkey)]

/-! ## Saves -/

/-- What a save makes of a cache. -/
structure Saved (c : Cache) (r : Revision) (m : SiteMap) (c' : Cache) : Prop where
  readable : c'.isReadable = c.isReadable
  writable : c'.isWritable = c.isWritable
  refuses : c'.store.refuses = c.store.refuses
  slot : ∀ key, c'.store.slot key
    = if key = r.id.text then some (.ok r.freshness, m.canonical) else c.store.slot key
  sound : c'.store.tables.Sound

/-- A save that succeeds fills the slot of its identity and no other. -/
theorem saved_of_save (h : c.store.tables.Sound) (hok : c.save r m = .ok c') : Saved c r m c' := by
  obtain ⟨-, -, s, hs, rfl⟩ := save_eq_ok_iff.1 hok
  refine ⟨isReadable_setStore c s, isWritable_setStore c s, ?_, fun key => ?_, ?_⟩
  · rw [store_setStore]
    exact Store.refuses_save hs
  · rw [store_setStore]
    exact Store.slot_save h hs key
  · rw [store_setStore]
    exact Store.sound_save h hs

/-- Whether a cache takes a map does not depend on the entries it has. -/
theorem save_isOk_iff (h : c.store.tables.Sound) : (∃ c', c.save r m = .ok c')
    ↔ c.isReadable = true ∧ c.isWritable = true ∧ c.store.refuses = false ∧ m.Distinct := by
  rw [← Store.save_isOk_iff h r m]
  constructor
  · rintro ⟨c', hok⟩
    obtain ⟨hreadable, hwritable, s, hs, -⟩ := save_eq_ok_iff.1 hok
    exact ⟨hreadable, hwritable, s, hs⟩
  · rintro ⟨hreadable, hwritable, s, hs⟩
    exact ⟨_, save_eq_ok_iff.2 ⟨hreadable, hwritable, s, hs, rfl⟩⟩

/-- Caches that are alike take the same maps. -/
theorem Alike.save_isOk (h : Alike keys c d) (hok : c.save r m = .ok c') :
    ∃ d', d.save r m = .ok d' := by
  -- All that decides about it is the same on both sides.
  have htaken := (save_isOk_iff h.sound).1 ⟨c', hok⟩
  rw [h.readable, h.writable, h.refuses] at htaken
  exact (save_isOk_iff h.sound').2 htaken

/-- Caches that are alike are so after the same save. -/
theorem Alike.save (h : Alike keys c d) (hc : c.save r m = .ok c') (hd : d.save r m = .ok d') :
    Alike keys c' d' := by
  have hsaved := saved_of_save h.sound hc
  have hsaved' := saved_of_save h.sound' hd
  refine ⟨?_, ?_, ?_, fun key hkey => ?_, hsaved.sound, hsaved'.sound⟩
  · rw [hsaved.readable, hsaved'.readable, h.readable]
  · rw [hsaved.writable, hsaved'.writable, h.writable]
  · rw [hsaved.refuses, hsaved'.refuses, h.refuses]
  · rw [hsaved.slot, hsaved'.slot, h.slot key hkey]

/-- A save is not seen from other keys. -/
theorem alike_save (h : c.store.tables.Sound) (hok : c.save r m = .ok c')
    (hkey : ¬keys r.id.text) : Alike keys c c' := by
  have hsaved := saved_of_save h hok
  refine ⟨hsaved.readable.symm, hsaved.writable.symm, hsaved.refuses.symm, fun key hin => ?_, h,
    hsaved.sound⟩
  rw [hsaved.slot, if_neg]
  -- The key that was written is none of those that are asked for.
  rintro rfl
  exact hkey hin

/-! ## Answers -/

/-- Whatever two caches are asked, they answer the same. -/
structure AnswerAlike (c d : Cache) : Prop where
  load : ∀ r, c.load r = d.load r
  entries : c.read Store.entries = d.read Store.entries
  exported : c.read Store.exportBundle = d.read Store.exportBundle
  removed : ∀ id, (c.change fun s => .ok (s.remove id)).map Prod.fst
    = (d.change fun s => .ok (s.remove id)).map Prod.fst
  accepted : ∀ r m, (∃ c', c.save r m = .ok c') ↔ ∃ d', d.save r m = .ok d'

/-- What a change that cannot fail answers depends on the store and on what the cache allows. -/
theorem change_map_fst {α : Type} (c : Cache) (f : Store → α × Store) :
    (c.change fun s => .ok (f s)).map Prod.fst
      = if !c.isReadable then .error .malformedDatabase
        else if !c.isWritable then .error .readOnly else .ok (f c.store).1 := by
  unfold change
  split
  · rfl
  · split
    · rfl
    · rfl

/-- Caches that are alike in all keys cannot be told apart by what they answer. -/
theorem Alike.answers (h : Alike (fun _ => True) c d) : AnswerAlike c d where
  load := fun r => h.load_eq trivial
  entries := by
    rw [read, read, h.readable,
      Store.entries_of_slots h.sound h.sound' fun key => h.slot key trivial]
  exported := by
    rw [read, read, h.readable,
      Store.exportBundle_of_slots h.sound h.sound' fun key => h.slot key trivial]
  removed := fun id => by
    -- Whether an entry is removed shows in its slot, since a row that cannot be read has one.
    have hremoved : (c.store.remove id).1 = (d.store.remove id).1 := by
      show (c.store.tables.find? id.text).isSome = (d.store.tables.find? id.text).isSome
      rw [Store.isSome_find?_eq_slot, Store.isSome_find?_eq_slot, h.slot _ trivial]
    rw [change_map_fst, change_map_fst, h.readable, h.writable, hremoved]
  accepted := fun r m => by
    rw [save_isOk_iff h.sound, save_isOk_iff h.sound', h.readable, h.writable, h.refuses]

end Coverage.Cache
