/-
  Coverage.Proofs.Hits.Readings

  What is read from a ledger, in whatever order it was charged.

  Every counter is a number of charges, those of slots (`functionHits_charged`) like those of
  lines and exits; and something ran if any charge was counted (`anyRan_charged`), by induction on
  the charges.  Numbers of charges do not depend on their order, and all that is read from a
  ledger comes from these (`readsAlike_of`).  Whether a charge finds a function depends on the map
  alone, so it is answered alike at any time (`answered_eq`).
-/

import Coverage.Proofs.Hits.Charges
import Coverage.Trace.Writer

namespace Coverage

/-! ## Whether something ran -/

namespace Counters

variable (c : Counters)

/-- A counter that has been counted up is positive. -/
theorem any_modify {ns : Array Nat} {i : Nat} (h : i < ns.size) :
    (ns.modify i (· + 1)).any (0 < ·) = true := by
  rw [Array.any_eq_true]
  refine ⟨i, by rwa [Array.size_modify], ?_⟩
  simp [Array.getElem_modify_self]

theorem any_replicate_zero (n : Nat) : (Array.replicate n 0).any (0 < ·) = false := by
  rw [Array.any_eq_false]
  intro i hi
  simp

theorem anyRan_zero (m : SiteMap) : (zero m).anyRan = false := by
  simp only [anyRan, zero, any_replicate_zero, Table.anyPositive_zero]
  rfl

/-- Where a line was counted something ran, whether it was counted in the table or in the bag. -/
theorem anyRan_recordLine (line : Nat) : (c.recordLine line).anyRan = true := by
  unfold recordLine
  split
  · rename_i hroom
    simp only [anyRan, Table.anyPositive_add hroom, Bool.true_or]
  · simp only [anyRan, Bag.isEmpty_add, Bool.not_false, Bool.or_true, Bool.true_or]

/-- Where an exit was counted something ran. -/
theorem anyRan_recordExit (line index : Nat) : (c.recordExit line index).anyRan = true := by
  simp only [anyRan, recordExit, Bag.isEmpty_add, Bool.not_false, Bool.or_true]

/-- Where a call was counted something ran. -/
theorem anyRan_recordSlot {slot : Nat} (h : slot < c.functions.size) :
    (c.recordSlot slot).anyRan = true := by
  simp only [anyRan, recordSlot, any_modify h, Bool.or_true, Bool.true_or]

end Counters

namespace Ledger

/-! ## Slots -/

variable {l : Ledger}

/-- A charge counts in the slot of a function that the map has. -/
theorem slotFor?_lt {x : Charge} {slot : Nat} (h : l.slotFor? x = some slot) :
    slot < l.map.functions.length := by
  cases x with
  | line line => cases h
  | exit line index => cases h
  | call key => exact slotOf?_lt h
  | entry name line => exact slotEntered?_lt h

/-- A charge calls the function that it is for, if any. -/
theorem functions_charge (l : Ledger) (x : Charge) :
    (l.charge x).counters.functions = (l.called (l.slotFor? x)).counters.functions := by
  cases x with
  | line line =>
    show (l.counters.recordLine line).functions = _
    unfold Counters.recordLine
    split <;> rfl
  | exit line index => rfl
  | call key =>
    rw [charge_call]
    rfl
  | entry name line =>
    rw [charge_entry]
    rfl

/-- The calls of a slot grow by the charges that count in it. -/
theorem functionHits_charge (h : l.Complete) (x : Charge) (k : Nat) :
    (l.charge x).counters.functionHits k
      = l.counters.functionHits k + if l.slotFor? x = some k then 1 else 0 := by
  rw [Counters.functionHits, functions_charge, ← Counters.functionHits]
  cases hslot : l.slotFor? x with
  | none => rfl
  | some slot =>
    refine (l.counters.functionHits_recordSlot (h ▸ slotFor?_lt hslot) k).trans ?_
    simp only [Option.some.injEq, eq_comm]

/-- After some charges, those that count in a slot have been added to it. -/
theorem functionHits_foldl_charge (h : l.Complete) (xs : List Charge) (k : Nat) :
    (xs.foldl charge l).counters.functionHits k = l.counters.functionHits k
      + xs.countP fun x => (ofMap l.map).slotFor? x = some k := by
  induction xs generalizing l with
  | nil => rfl
  | cons x rest ih =>
    -- Which slot a charge is for depends on the map alone, so it is the same all along.
    have hslot : l.slotFor? x = (ofMap l.map).slotFor? x := by cases x <;> rfl
    rw [List.foldl_cons, ih (complete_charge x h), map_charge, functionHits_charge h, hslot,
      List.countP_cons]
    simp only [decide_eq_true_eq]
    omega

/-- The calls of a function are the charges that find its slot. -/
theorem functionHits_charged (m : SiteMap) (xs : List Charge) (k : Nat) :
    (charged m xs).counters.functionHits k
      = xs.countP fun x => (ofMap m).slotFor? x = some k := by
  rw [charged, functionHits_foldl_charge (complete_ofMap m)]
  have hzero : (ofMap m).counters.functionHits k = 0 := by
    show ((Array.replicate m.functions.length 0)[k]?).getD 0 = 0
    rw [Array.getElem?_replicate]
    split <;> rfl
  rw [hzero, Nat.zero_add]
  rfl

/-! ## Counted charges -/

/-- Whether a charge is counted at all: calls and entries are, if they find their function. -/
def counts (m : SiteMap) : Charge → Bool
  | .line _ => true
  | .exit _ _ => true
  | .call key => findsFunction m (.call key)
  | .entry name line => findsFunction m (.entry name line)

/-- After a call something ran if it found a function, or if something had run before. -/
theorem anyRan_called {slot : Option Nat} (h : ∀ n ∈ slot, n < l.counters.functions.size) :
    (l.called slot).counters.anyRan = (slot.isSome || l.counters.anyRan) := by
  cases slot with
  | none => rfl
  | some slot => exact l.counters.anyRan_recordSlot (h slot rfl)

/-- After a charge something ran if it was counted, or if something had run before. -/
theorem anyRan_charge (h : l.Complete) (x : Charge) :
    (l.charge x).counters.anyRan = (counts l.map x || l.counters.anyRan) := by
  cases x with
  | line line => exact l.counters.anyRan_recordLine line
  | exit line index => exact l.counters.anyRan_recordExit line index
  | call key =>
    rw [charge_call]
    exact anyRan_called fun slot hslot => h ▸ slotOf?_lt hslot
  | entry name line =>
    rw [charge_entry]
    exact anyRan_called fun slot hslot => h ▸ slotEntered?_lt hslot

/-- After some charges something ran if one of them was counted, or if something had run before.
    -/
theorem anyRan_foldl_charge (h : l.Complete) (xs : List Charge) :
    (xs.foldl charge l).counters.anyRan = (xs.any (counts l.map) || l.counters.anyRan) := by
  induction xs generalizing l with
  | nil => rfl
  | cons x rest ih =>
    rw [List.foldl_cons, ih (complete_charge x h), map_charge, anyRan_charge h, List.any_cons,
      ← Bool.or_assoc, Bool.or_comm (rest.any _)]

/-- Something ran if any of the charges was counted. -/
theorem anyRan_charged (m : SiteMap) (xs : List Charge) :
    (charged m xs).counters.anyRan = xs.any (counts m) := by
  rw [charged, anyRan_foldl_charge (complete_ofMap m)]
  show (_ || (Counters.zero m).anyRan) = _
  rw [Counters.anyRan_zero, Bool.or_false]
  rfl

/-! ## Answers -/

/-- Whether a charge is answered with a function: a call that there is one, an entry with its
    key. -/
def credits (l : Ledger) : Charge → Bool
  | .line _ => false
  | .exit _ _ => false
  | .call key => (l.recordCall key).1
  | .entry name line => (l.recordEntry name line).1.isSome

/-- Some charges one after another, each with whether it is answered with a function. -/
def answered (l : Ledger) : List Charge → List (Charge × Bool)
  | [] => []
  | x :: rest => (x, l.credits x) :: (l.charge x).answered rest

/-- What a charge is answered with depends on the map alone. -/
theorem credits_eq (l : Ledger) (x : Charge) : l.credits x = findsFunction l.map x := by
  cases x with
  | line line => rfl
  | exit line index => rfl
  | call key =>
    show (l.recordCall key).1 = (l.slotOf? key).isSome
    unfold recordCall
    cases l.slotOf? key <;> rfl
  | entry name line =>
    show (l.recordEntry name line).1.isSome = (l.slotEntered? name line).isSome
    unfold recordEntry
    cases hslot : l.slotEntered? name line with
    | none => rfl
    | some slot => simp [slotEntered?_lt hslot]

/-- So it is the same at whatever time the charge is made. -/
theorem answered_eq (l : Ledger) (xs : List Charge) :
    l.answered xs = xs.map fun x => (x, findsFunction l.map x) := by
  induction xs generalizing l with
  | nil => rfl
  | cons x rest ih => rw [answered, ih, map_charge, credits_eq, List.map_cons]

/-! ## Readings -/

/-- All that is read from two ledgers is the same. -/
structure ReadsAlike (k l : Ledger) : Prop where
  lineHits : ∀ line, k.lineHits line = l.lineHits line
  functionHits : ∀ slot, k.counters.functionHits slot = l.counters.functionHits slot
  exitState : ∀ e, k.exitState e = l.exitState e
  totals : k.totals = l.totals
  written : ∀ path, Trace.section? path k = Trace.section? path l

/-- All that is read from two ledgers of one map is the same if their counters are. -/
theorem readsAlike_of {k l : Ledger} (hmap : k.map = l.map)
    (hlines : ∀ line, k.lineHits line = l.lineHits line)
    (hexits : ∀ line index, k.counters.exits.count (line, index)
      = l.counters.exits.count (line, index))
    (hcalls : ∀ slot, k.counters.functionHits slot = l.counters.functionHits slot)
    (hran : k.counters.anyRan = l.counters.anyRan) : ReadsAlike k l := by
  have hlineHits : k.lineHits = l.lineHits := funext hlines
  have hcounters : k.counters.lineHits = l.counters.lineHits := hlineHits
  have hexitState : k.exitState = l.exitState := by
    funext e
    simp only [exitState, Counters.exitState, hexits, hcounters]
  have hfunctionHits : k.functionHits = l.functionHits := by
    simp only [functionHits, slots, hmap, funext hcalls]
  have htotals : k.totals = l.totals := by
    simp only [totals, hmap, hlineHits, hexitState, hfunctionHits]
  refine ⟨hlines, hcalls, congrFun hexitState, htotals, fun path => ?_⟩
  simp only [Trace.section?, Trace.records, hran, htotals, hmap, hfunctionHits, hexitState,
    hlineHits]

/-- Two ledgers that were charged the same in different orders have the same counters. -/
theorem readsAlike_of_perm (m : SiteMap) {xs ys : List Charge} (h : xs.Perm ys) :
    ReadsAlike (charged m xs) (charged m ys) := by
  apply readsAlike_of
  · rw [map_charged, map_charged]
  · intro line
    rw [lineHits_charged, lineHits_charged, h.count_eq]
  · intro line index
    rw [exits_charged, exits_charged, h.count_eq]
  · intro slot
    rw [functionHits_charged, functionHits_charged, h.countP_eq]
  · rw [anyRan_charged, anyRan_charged, h.any_eq]

/-- Lines have run as often as was recorded, wherever the map ends; functions were called as often
    as a call or an entry was answered with one; something ran if any of these or an exit was
    recorded.  In any other order of what was recorded the same is read. -/
theorem readings_exact (m : SiteMap) {xs ys : List Charge} (h : xs.Perm ys) :
    (∀ line, (charged m xs).lineHits line = xs.count (.line line))
      ∧ ((charged m xs).functionHits.map Prod.snd).sum = ((ofMap m).answered xs).countP Prod.snd
      ∧ ((charged m xs).counters.anyRan = true ↔ ∃ a ∈ (ofMap m).answered xs,
        (∃ line, a.1 = .line line) ∨ (∃ line index, a.1 = .exit line index) ∨ a.2 = true)
      ∧ ReadsAlike (charged m xs) (charged m ys) := by
  refine ⟨lineHits_charged m xs, ?_, ?_, readsAlike_of_perm m h⟩
  · rw [calls_charged, answered_eq, List.countP_map]
    rfl
  · rw [anyRan_charged, List.any_eq_true, answered_eq]
    simp only [List.mem_map, exists_exists_and_eq_and]
    refine exists_congr fun x => and_congr_right fun _ => ?_
    cases x with
    | line line => exact iff_of_true rfl (.inl ⟨line, rfl⟩)
    | exit line index => exact iff_of_true rfl (.inr (.inl ⟨line, index, rfl⟩))
    | call key => simp [counts, ofMap]
    | entry name line => simp [counts, ofMap]

/-- A map with one function and one exit. -/
def single : SiteMap :=
  ⟨[1, 2], [⟨1, 0, [2]⟩], [⟨"f:1:0", 1, 2, some 2⟩]⟩

/-- Charges of all kinds, one of them beyond the last line and one for a function that is not
    there. -/
def mixed : List Charge :=
  [.line 1, .entry none 2, .line 9, .call "g:1:0", .exit 1 0, .call "f:1:0", .line 9]

theorem readings_exact_mixed :
    mixed.Perm mixed.reverse
      ∧ (charged single mixed).lineHits 9 = 2
      ∧ ((charged single mixed).functionHits.map Prod.snd).sum = 2
      ∧ (charged single mixed).counters.anyRan = true
      ∧ (charged single mixed).totals = (charged single mixed.reverse).totals := by
  have hperm : mixed.Perm mixed.reverse := (List.reverse_perm mixed).symm
  obtain ⟨hlines, hcalls, hran, halike⟩ := readings_exact single hperm
  refine ⟨hperm, ?_, ?_, hran.2 ⟨(.line 1, false), List.mem_cons_self, .inl ⟨1, rfl⟩⟩,
    halike.totals⟩
  · rw [hlines]
    decide
  · rw [hcalls]
    decide +kernel

end Ledger
end Coverage
