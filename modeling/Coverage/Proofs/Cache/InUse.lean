/-
  Coverage.Proofs.Cache.InUse

  When a cache in use takes a change: it can be read and changed, and its store takes the
  change.
-/

import Coverage.Cache.Basic
import Coverage.Proofs.Chain

namespace Coverage.Cache

variable {c c' : Cache}

theorem isReadable_setStore (c : Cache) (s : Store) : (c.setStore s).isReadable = c.isReadable := by
  cases c <;> rfl

theorem isWritable_setStore (c : Cache) (s : Store) : (c.setStore s).isWritable = c.isWritable := by
  cases c <;> rfl

/-- A change succeeds exactly if the cache can be read and written and its store takes it. -/
theorem change_eq_ok_iff {α : Type} {f : Store → Except Fault (α × Store)} {a : α} :
    c.change f = .ok (a, c') ↔ c.isReadable = true ∧ c.isWritable = true
      ∧ ∃ s, f c.store = .ok (a, s) ∧ c' = c.setStore s := by
  unfold change
  cases c.isReadable with
  | false => simp
  | true =>
    cases c.isWritable with
    | false => simp
    | true =>
      simp only [Bool.not_true, Bool.false_eq_true, if_false, true_and]
      constructor
      · intro hok
        obtain ⟨⟨b, s⟩, hf, heq⟩ := bind_eq_ok.1 hok
        cases heq
        exact ⟨s, hf, rfl⟩
      · rintro ⟨s, hf, rfl⟩
        exact bind_eq_ok.2 ⟨(a, s), hf, rfl⟩

/-- A save succeeds exactly if the cache can be read and written and its store takes it. -/
theorem save_eq_ok_iff {r : Revision} {m : SiteMap} :
    c.save r m = .ok c' ↔ c.isReadable = true ∧ c.isWritable = true
      ∧ ∃ s, c.store.save r m = .ok s ∧ c' = c.setStore s := by
  constructor
  · intro hok
    obtain ⟨⟨⟨⟩, d⟩, hchange, heq⟩ := bind_eq_ok.1 hok
    obtain ⟨hreadable, hwritable, s, hs, rfl⟩ := change_eq_ok_iff.1 hchange
    obtain ⟨saved, hsaved, hpair⟩ := bind_eq_ok.1 hs
    cases hpair
    cases heq
    exact ⟨hreadable, hwritable, s, hsaved, rfl⟩
  · rintro ⟨hreadable, hwritable, s, hs, rfl⟩
    have hpair : (do return ((), ← c.store.save r m) : Except Fault _) = .ok ((), s) := by
      rw [hs]
      rfl
    refine bind_eq_ok.2 ⟨((), c.setStore s), ?_, rfl⟩
    exact change_eq_ok_iff.2 ⟨hreadable, hwritable, s, hpair, rfl⟩

end Coverage.Cache
