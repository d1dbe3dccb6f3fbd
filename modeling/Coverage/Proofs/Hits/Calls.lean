/-
  Coverage.Proofs.Hits.Calls

  Calls of functions, by their keys.

  A ledger goes through its functions for a key, and a map searches among them.  Where the keys
  are in order both come to the one slot that has the key (`slotOf?_eq_functionIndex?`), so at
  any time the search tells which counter a call will count in, if in any
  (`calls_foundAlike`).
-/

import Coverage.Proofs.Hits.Charges
import Coverage.Proofs.SiteMap.Search

namespace Coverage.Ledger

open SiteMap (KeysInOrder)

variable {l : Ledger} {key : String} {slot : Nat}

/-! ## The slot of a key -/

/-- The slot that is found has the key. -/
theorem getElem?_of_slotOf? (h : l.slotOf? key = some slot) : l.map.keys[slot]? = some key := by
  obtain ⟨f, hf, rfl⟩ := Option.map_eq_some_iff.1 h
  have hmem : l.map.functions[f.2]? = some f.1 :=
    mem_slots.1 (List.mem_reverse.1 (List.mem_of_find?_eq_some hf))
  have hkey := List.find?_some hf
  rw [decide_eq_true_eq] at hkey
  rw [SiteMap.keys, List.getElem?_map, hmem, Option.map_some, hkey]

/-- A key that is not found is that of no function. -/
theorem not_mem_of_slotOf? (h : l.slotOf? key = none) : key ∉ l.map.keys := by
  rw [slotOf?, Option.map_eq_none_iff, List.find?_eq_none] at h
  intro hkey
  obtain ⟨f, hf, heq⟩ := List.mem_map.1 hkey
  obtain ⟨k, hk⟩ := List.mem_iff_getElem?.1 hf
  have hmem : (f, k) ∈ l.slots := mem_slots.2 hk
  exact h (f, k) (List.mem_reverse.2 hmem) (decide_eq_true heq)

/-- Among distinct keys, the slot that is found is the one that has the key. -/
theorem slotOf?_eq_some_iff (h : l.map.keys.Nodup) :
    l.slotOf? key = some slot ↔ l.map.keys[slot]? = some key := by
  refine ⟨getElem?_of_slotOf?, fun hslot => ?_⟩
  cases hfound : l.slotOf? key with
  | none => exact absurd (List.mem_of_getElem? hslot) (not_mem_of_slotOf? hfound)
  | some other =>
    have hother : l.map.keys[other]? = some key := getElem?_of_slotOf? hfound
    have hlength := (List.getElem?_eq_some_iff.1 hother).1
    rw [(List.getElem?_inj hlength h).1 (hother.trans hslot.symm)]

/-- The ledger and the map find the same slot. -/
theorem slotOf?_eq_functionIndex? (h : l.map.KeysInOrder) :
    l.slotOf? key = l.map.functionIndex? key := by
  apply Option.ext
  intro slot
  rw [slotOf?_eq_some_iff h.distinct, h.functionIndex?_eq_some_iff]

/-! ## One call -/

/-- A call of an unknown key leaves the ledger as it is. -/
theorem recordCall_of_none (h : l.slotOf? key = none) : l.recordCall key = (false, l) := by
  unfold recordCall
  rw [h]

/-- A call of a known key counts in its slot. -/
theorem recordCall_of_some (h : l.slotOf? key = some slot) :
    l.recordCall key = (true, { l with counters := l.counters.recordSlot slot }) := by
  unfold recordCall
  rw [h]

/-- What a call is answered with, and what it leaves of the ledger, by the slot that the key is
    found in. -/
inductive Credited (l : Ledger) : Option Nat → Bool × Ledger → Prop
  | nobody : Credited l none (false, l)
  | called {slot : Nat} {next : Ledger}
      (hcounts : ∀ k, next.counters.functionHits k
        = l.counters.functionHits k + if k = slot then 1 else 0)
      (hrest : next = { l with counters.functions := next.counters.functions }) :
      Credited l (some slot) (true, next)

/-- A call is credited to the slot that its key is found in. -/
theorem Complete.credited (h : l.Complete) (key : String) :
    Credited l (l.slotOf? key) (l.recordCall key) := by
  cases hslot : l.slotOf? key with
  | none =>
    rw [recordCall_of_none hslot]
    exact .nobody
  | some slot =>
    rw [recordCall_of_some hslot]
    exact .called (l.counters.functionHits_recordSlot (h ▸ slotOf?_lt hslot)) rfl

/-- In a map whose keys are in order a key is found in the slot that has it, and in none if no
    function has it.  A call by that key is answered at any time with whether it is found: it
    counts once in that slot and nowhere else, or changes nothing. -/
theorem calls_foundAlike {m : SiteMap} (h : m.KeysInOrder) (key : String) :
    (∀ slot, m.functionIndex? key = some slot ↔ m.keys[slot]? = some key)
      ∧ (m.functionIndex? key = none ↔ key ∉ m.keys)
      ∧ ∀ xs, Credited (charged m xs) (m.functionIndex? key) ((charged m xs).recordCall key) := by
  refine ⟨fun slot => h.functionIndex?_eq_some_iff, h.functionIndex?_eq_none_iff, fun xs => ?_⟩
  have hmap : (charged m xs).map = m := map_charged m xs
  have hfound : (charged m xs).slotOf? key = m.functionIndex? key := by
    rw [slotOf?_eq_functionIndex? (hmap.symm ▸ h), hmap]
  rw [← hfound]
  exact (complete_charged m xs).credited key

/-- Functions whose keys the order of bytes puts otherwise than their lines, and the letters of
    their names otherwise than an alphabet. -/
def byBytes : SiteMap :=
  ⟨[1, 2, 3, 10], [], [⟨"(anonymous):3:0", 3, 3, none⟩, ⟨"f:10:0", 10, 10, none⟩,
    ⟨"f:2:0", 2, 3, some 3⟩, ⟨"é:1:0", 1, 1, none⟩]⟩

/-- The keys are in order of bytes, each once. -/
theorem keysInOrder_byBytes : byBytes.KeysInOrder :=
  ⟨by decide +kernel, by decide +kernel⟩

theorem calls_foundAlike_byBytes :
    byBytes.KeysInOrder ∧ byBytes.functionIndex? "f:2:0" = some 2
      ∧ byBytes.functionIndex? "f:1:0" = none
      ∧ (∃ next, (charged byBytes [.call "é:1:0"]).recordCall "f:2:0" = (true, next)
        ∧ next.counters.functionHits 2 = 1 ∧ next.counters.functionHits 3 = 1)
      ∧ ((charged byBytes [.call "é:1:0"]).recordCall "f:1:0").1 = false := by
  obtain ⟨hfound, -, hcalled⟩ := calls_foundAlike keysInOrder_byBytes "f:2:0"
  obtain ⟨-, hmissing, hignored⟩ := calls_foundAlike keysInOrder_byBytes "f:1:0"
  have hsecond : byBytes.functionIndex? "f:2:0" = some 2 := (hfound 2).2 rfl
  have hnone : byBytes.functionIndex? "f:1:0" = none := hmissing.2 (by decide)
  refine ⟨keysInOrder_byBytes, hsecond, hnone, ?_, ?_⟩
  · have hcall := hcalled [.call "é:1:0"]
    rw [hsecond] at hcall
    generalize (charged byBytes [.call "é:1:0"]).recordCall "f:2:0" = result at hcall ⊢
    -- The counters after the call are told by the counts alone.
    cases hcall with
    | @called slot next hcounts _ =>
      refine ⟨next, rfl, ?_, ?_⟩
      · rw [hcounts]
        decide +kernel
      · rw [hcounts]
        decide +kernel
  · have hcall := hignored [.call "é:1:0"]
    rw [hnone] at hcall
    generalize (charged byBytes [.call "é:1:0"]).recordCall "f:1:0" = result at hcall ⊢
    cases hcall with
    | nobody => rfl

end Coverage.Ledger
