/-
  Coverage.Proofs.Session.Honest

  Caches that hold no other maps than parsing gives.

  A store is honest if each entry that can be read has the map of the content that once had
  its token.  Saving the map of a content keeps a store honest, and so does everything that
  may happen to a store behind the back of those who use it.  An honest store may miss a
  map, but never gives a wrong one (`Honest.load`).
-/

import Coverage.Proofs.Cache.InUse
import Coverage.Proofs.Cache.View
import Coverage.Session.Surroundings
import Coverage.SiteMap.Survey

namespace Coverage

open Text (Utf8.lossy)

/-- The map that parsing gives for a source. -/
def analysis (engine : Engine) (source name : String) : Except Fault SiteMap :=
  match engine source name with
  | .error fault => .error (.misparsed fault)
  | .ok program => .ok (SiteMap.ofProgram program)

/-- The content that each source had under each token, as far as it had one. -/
abbrev Provenance := String → Freshness → Option Bytes

/-- What can be found in some surroundings is among the contents. -/
def Surroundings.Agrees (e : Surroundings) (contents : Provenance) : Prop :=
  ∀ id r bytes, e.content id = .ok (r, bytes) → contents r.id.text r.freshness = some bytes

/-- What the survey of a script gives is canonical. -/
theorem canonical_of_analysis {engine : Engine} {source name : String} {m : SiteMap}
    (h : analysis engine source name = .ok m) : m.canonical = m := by
  unfold analysis at h
  split at h
  · cases h
  · cases h
    exact SiteMap.canonical_canonical _

namespace Cache.Store

/-- Each entry that can be read has the map of the content that had its token. -/
structure Honest (engine : Engine) (contents : Provenance) (s : Store) : Prop where
  sound : s.tables.Sound
  genuine : ∀ key f m, s.view key = some (f, m) →
    ∃ bytes, contents key f = some bytes ∧ analysis engine (Utf8.lossy bytes) key = .ok m

variable {engine : Engine} {contents : Provenance} {s s' : Store}

theorem honest_empty : empty.Honest engine contents where
  sound := Tables.sound_empty
  genuine := fun _ _ _ h => by cases h

/-- What is found in an honest store is what parsing gives. -/
theorem Honest.load (h : s.Honest engine contents) {r : Revision} {m : SiteMap}
    (hload : s.load r = .ok (some m)) {bytes : Bytes}
    (hbytes : contents r.id.text r.freshness = some bytes) :
    analysis engine (Utf8.lossy bytes) r.id.text = .ok m := by
  unfold Store.load at hload
  split at hload
  · cases hload
  · rename_i row hrow
    obtain ⟨f, hf, hload⟩ := bind_eq_ok.1 hload
    by_cases hfresh : f = r.freshness
    · rw [if_pos hfresh] at hload
      cases hload
      have hview : s.view r.id.text = some (f, s.tables.map row.number) :=
        Tables.view_eq_some.2 ⟨row, hrow, hf, rfl⟩
      -- The content that had this token is the one that has it now.
      obtain ⟨found, hfound, hmap⟩ := h.genuine _ _ _ hview
      rw [hfresh, hbytes] at hfound
      cases hfound
      exact hmap
    · rw [if_neg hfresh] at hload
      cases hload

/-- A store stays honest if the map of a content is saved under its token. -/
theorem Honest.save (h : s.Honest engine contents) {r : Revision} {m : SiteMap}
    (hok : s.save r m = .ok s') {bytes : Bytes}
    (hbytes : contents r.id.text r.freshness = some bytes)
    (hmap : analysis engine (Utf8.lossy bytes) r.id.text = .ok m) :
    s'.Honest engine contents where
  sound := sound_save h.sound hok
  genuine := fun key f found hview => by
    rw [view_save h.sound hok] at hview
    split at hview
    · rename_i hkey
      cases hview
      rw [hkey, canonical_of_analysis hmap]
      exact ⟨bytes, hbytes, hmap⟩
    · exact h.genuine key f found hview

/-- What is left of a damaged store is as honest as it was. -/
theorem Honest.damage (h : s.Honest engine contents) (d : Damage) :
    (s.damage d).Honest engine contents where
  sound := sound_damage h.sound d
  genuine := fun key f m hview => h.genuine key f m (view_damage hview)

/-- So is a store that is opened again. -/
theorem Honest.opened (h : s.Honest engine contents) : s.opened.Honest engine contents where
  sound := sound_opened h.sound
  genuine := fun key f m hview => h.genuine key f m (view_opened hview)

end Cache.Store

/-! ## Caches in use -/

namespace Cache

variable {engine : Engine} {contents : Provenance} {c c' : Cache}

/-- What a cache gives is what its store has. -/
theorem load_ok {r : Revision} {found : Option SiteMap} (h : c.load r = .ok found) :
    c.store.load r = .ok found := by
  unfold load read at h
  split at h
  · exact h
  · cases h

/-- What a cache saves its store has. -/
theorem save_ok {r : Revision} {m : SiteMap} (h : c.save r m = .ok c') :
    ∃ s, c.store.save r m = .ok s ∧ c'.store = s := by
  obtain ⟨-, -, s, hs, rfl⟩ := save_eq_ok_iff.1 h
  exact ⟨s, hs, store_setStore c s⟩

end Cache
end Coverage
