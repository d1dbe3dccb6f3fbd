/-
  Coverage.Proofs.Hits.Charges

  What the counters of a ledger say of all that was charged to it.

  A `Charge` is what one event counts in one file.  From a ledger with nothing counted yet,
  every counter is the number of charges for it: of lines, whether the table has room for
  them or not, of exits, and of calls that found their function
  (`lineHits_charged`, `exits_charged`, `calls_charged`, by induction on the charges).
-/

import Coverage.Proofs.Hits.Choice
import Mathlib.Algebra.GroupWithZero.Nat

namespace Coverage

/-! ## Single counters -/

namespace Counters

variable (c : Counters)

/-- A line is counted once, in the table where there is a counter for it and in the bag where
    there is none. -/
theorem lineHits_recordLine (line l : Nat) :
    (c.recordLine line).lineHits l = c.lineHits l + if l = line then 1 else 0 := by
  unfold recordLine lineHits
  -- A line has a counter in the table or is counted in the bag; it is read where it is counted,
  -- since the table does not grow.
  by_cases hroom : line < c.lines.size
  · rw [if_pos hroom]
    dsimp only
    rw [Table.get?_add]
    cases hcount : c.lines.get? l with
    | some n => rfl
    | none =>
      have hne : l ≠ line := fun heq => Table.get?_eq_none_iff.1 hcount (heq ▸ hroom)
      rw [if_neg hne]
      rfl
  · rw [if_neg hroom]
    dsimp only
    cases hcount : c.lines.get? l with
    | some n =>
      have hne : l ≠ line := by
        rintro rfl
        rw [Table.get?_eq_none_iff.2 hroom] at hcount
        cases hcount
      rw [if_neg hne]
      rfl
    | none => exact Bag.count_add c.stray line l

/-- A call counts in its slot and in no other. -/
theorem functionHits_recordSlot {slot : Nat} (h : slot < c.functions.size) (k : Nat) :
    (c.recordSlot slot).functionHits k = c.functionHits k + if k = slot then 1 else 0 := by
  unfold recordSlot functionHits
  simp only [Array.getElem?_modify]
  by_cases hk : k = slot
  · subst hk
    rw [if_pos rfl, if_pos rfl, Array.getElem?_eq_getElem h]
    rfl
  · rw [if_neg fun heq => hk heq.symm, if_neg hk, Nat.add_zero]

/-- How often the functions were called, all together. -/
def calls : Nat :=
  c.functions.toList.sum

/-- Adding to one of some numbers adds to their sum. -/
theorem sum_modify {ns : List Nat} {slot : Nat} (h : slot < ns.length) :
    (ns.modify slot (· + 1)).sum = ns.sum + 1 := by
  induction ns generalizing slot with
  | nil => exact absurd h (Nat.not_lt_zero slot)
  | cons n rest ih =>
    cases slot with
    | zero =>
      rw [List.modify_zero_cons, List.sum_cons, List.sum_cons]
      omega
    | succ slot =>
      rw [List.modify_succ_cons, List.sum_cons, List.sum_cons, ih (Nat.lt_of_succ_lt_succ h)]
      omega

/-- A call counts among all calls once. -/
theorem calls_recordSlot {slot : Nat} (h : slot < c.functions.size) :
    (c.recordSlot slot).calls = c.calls + 1 := by
  rw [calls, recordSlot, Array.toList_modify]
  exact sum_modify h

theorem lineHits_zero (m : SiteMap) (line : Nat) : (zero m).lineHits line = 0 := by
  have htable := Table.get?_zero (m.maxLine + 1) line
  unfold lineHits
  cases hcount : (zero m).lines.get? line with
  | some n =>
    rw [show (zero m).lines = .zero (m.maxLine + 1) from rfl] at hcount
    rwa [hcount] at htable
  | none => rfl

theorem calls_zero (m : SiteMap) : (zero m).calls = 0 := by
  simp [calls, zero]

end Counters

namespace Ledger

/-! ## Which functions can be found -/

variable {l : Ledger}

theorem slot_lt {f : FunctionSpan × Nat} (h : f ∈ l.slots) : f.2 < l.map.functions.length :=
  (List.getElem?_eq_some_iff.1 (mem_slots.1 h)).1

/-- A key finds the number of a function that the map has. -/
theorem slotOf?_lt {key : String} {slot : Nat} (h : l.slotOf? key = some slot) :
    slot < l.map.functions.length := by
  obtain ⟨f, hf, rfl⟩ := Option.map_eq_some_iff.1 h
  exact slot_lt (List.mem_reverse.1 (List.mem_of_find?_eq_some hf))

/-- The calls of all functions together, as they are read one by one. -/
theorem sum_functionHits (h : l.counters.functions.size = l.map.functions.length) :
    (l.functionHits.map Prod.snd).sum = l.counters.calls := by
  have hslots : l.functionHits.map Prod.snd
      = (List.range l.map.functions.length).map l.counters.functionHits := by
    rw [functionHits, slots, List.map_map, List.range_eq_range', ← List.zipIdx_map_snd,
      List.map_map]
    rfl
  have hread : (List.range l.map.functions.length).map l.counters.functionHits
      = l.counters.functions.toList := by
    refine List.ext_getElem (by simp [h]) fun slot hmap hlist => ?_
    rw [Array.length_toList] at hlist
    rw [List.getElem_map, List.getElem_range, Array.getElem_toList, Counters.functionHits,
      Array.getElem?_eq_getElem hlist, Option.getD_some]
  rw [hslots, hread, Counters.calls]

/-! ## Charges -/

/-- What an event counts in a file. -/
inductive Charge where
  | line (line : Nat)
  | exit (line index : Nat)
  | call (key : String)
  | entry (name : Option String) (line : Nat)
  deriving DecidableEq

/-- The ledger with one more charge. -/
def charge (l : Ledger) : Charge → Ledger
  | .line line => l.recordLine line
  | .exit line index => l.recordExit line index
  | .call key => (l.recordCall key).2
  | .entry name line => (l.recordEntry name line).2

/-- The slot of the function that a charge calls. -/
def slotFor? (l : Ledger) : Charge → Option Nat
  | .call key => l.slotOf? key
  | .entry name line => l.slotEntered? name line
  | _ => none

/-- Whether a charge calls a function that a map has. -/
def findsFunction (m : SiteMap) (x : Charge) : Bool :=
  ((ofMap m).slotFor? x).isSome

/-- The ledger after a call of the function in a slot, if there is one. -/
def called (l : Ledger) : Option Nat → Ledger
  | some slot => { l with counters := l.counters.recordSlot slot }
  | none => l

theorem charge_call (l : Ledger) (key : String) :
    l.charge (.call key) = l.called (l.slotOf? key) := by
  show (l.recordCall key).2 = _
  unfold recordCall
  cases l.slotOf? key with
  | some slot => rfl
  | none => rfl

theorem charge_entry (l : Ledger) (name : Option String) (line : Nat) :
    l.charge (.entry name line) = l.called (l.slotEntered? name line) := by
  show (l.recordEntry name line).2 = _
  unfold recordEntry
  cases l.slotEntered? name line with
  | some slot => rfl
  | none => rfl

/-- A call changes nothing but the counter of its function. -/
theorem called_eq (l : Ledger) (slot : Option Nat) :
    l.called slot = { l with counters.functions := (l.called slot).counters.functions } := by
  cases slot with
  | none => rfl
  | some slot => rfl

/-- A call leaves as many slots as there were. -/
theorem size_called (l : Ledger) (slot : Option Nat) :
    (l.called slot).counters.functions.size = l.counters.functions.size := by
  cases slot with
  | none => rfl
  | some slot => exact Array.size_modify

/-- A call is counted if it found a function. -/
theorem calls_called (l : Ledger) {slot : Option Nat}
    (h : ∀ n ∈ slot, n < l.counters.functions.size) :
    (l.called slot).counters.calls = l.counters.calls + if slot.isSome then 1 else 0 := by
  cases slot with
  | none => rfl
  | some slot => exact l.counters.calls_recordSlot (h slot rfl)

/-! ## What one charge counts -/

section

variable (l : Ledger) (x : Charge)

/-- No charge changes the map. -/
theorem map_charge : (l.charge x).map = l.map := by
  cases x with
  | line line => rfl
  | exit line index => rfl
  | call key => rw [charge_call, called_eq]
  | entry name line => rw [charge_entry, called_eq]

/-- The hits of a line grow by its own charges. -/
theorem lineHits_charge (line : Nat) :
    (l.charge x).lineHits line = l.lineHits line + if x = .line line then 1 else 0 := by
  -- Only a line counts among the lines.
  cases x with
  | line ran =>
    refine (l.counters.lineHits_recordLine ran line).trans ?_
    by_cases h : line = ran
    · rw [if_pos h, if_pos (h ▸ rfl)]
      rfl
    · rw [if_neg h, if_neg fun heq => h (Charge.line.inj heq).symm]
      rfl
  | exit at_ index => rfl
  | call key =>
    rw [charge_call, called_eq]
    rfl
  | entry name at_ =>
    rw [charge_entry, called_eq]
    rfl

/-- The times an exit was taken grow by its own charges. -/
theorem exits_charge (line index : Nat) :
    (l.charge x).counters.exits.count (line, index)
      = l.counters.exits.count (line, index) + if x = .exit line index then 1 else 0 := by
  -- Only an exit counts among the exits.
  cases x with
  | line ran =>
    show (l.counters.recordLine ran).exits.count _ = _
    unfold Counters.recordLine
    split
    · rfl
    · rfl
  | exit taken n =>
    refine (Bag.count_add l.counters.exits (taken, n) (line, index)).trans ?_
    simp only [Prod.mk.injEq, Charge.exit.injEq, eq_comm]
  | call key =>
    rw [charge_call, called_eq]
    rfl
  | entry name at_ =>
    rw [charge_entry, called_eq]
    rfl

/-- Every function of the map has a counter. -/
def Complete (l : Ledger) : Prop :=
  l.counters.functions.size = l.map.functions.length

/-- A new ledger has a slot for each function. -/
theorem complete_ofMap (m : SiteMap) : (ofMap m).Complete :=
  Array.size_replicate

variable {l}

/-- No charge takes a slot away. -/
theorem complete_charge (h : l.Complete) : (l.charge x).Complete := by
  unfold Complete
  rw [map_charge, ← h]
  cases x with
  | line ran =>
    show (l.counters.recordLine ran).functions.size = _
    unfold Counters.recordLine
    split
    · rfl
    · rfl
  | exit taken n => rfl
  | call key => rw [charge_call, size_called]
  | entry name at_ => rw [charge_entry, size_called]

/-- The calls grow by the charges that find a function. -/
theorem calls_charge (h : l.Complete) :
    (l.charge x).counters.calls
      = l.counters.calls + if findsFunction l.map x then 1 else 0 := by
  -- Calls by key and calls by entry count, as far as they find a slot.
  cases x with
  | line ran =>
    show (l.counters.recordLine ran).calls = _
    unfold Counters.recordLine
    split
    · rfl
    · rfl
  | exit taken n => rfl
  | call key =>
    rw [charge_call]
    exact l.calls_called fun slot hslot => h ▸ slotOf?_lt hslot
  | entry name at_ =>
    rw [charge_entry]
    exact l.calls_called fun slot hslot => h ▸ slotEntered?_lt hslot

end

/-! ## What all charges count -/

section

variable (m : SiteMap) (xs : List Charge)

/-- The ledger of a map after some charges. -/
def charged : Ledger :=
  xs.foldl charge (ofMap m)

/-- After some charges the map is what it was, and lines and exits have been counted as often as
    they were charged. -/
theorem foldl_charge (l : Ledger) :
    (xs.foldl charge l).map = l.map
      ∧ (∀ line, (xs.foldl charge l).lineHits line = l.lineHits line + xs.count (.line line))
      ∧ ∀ line index, (xs.foldl charge l).counters.exits.count (line, index)
        = l.counters.exits.count (line, index) + xs.count (.exit line index) := by
  induction xs generalizing l with
  | nil => exact ⟨rfl, fun _ => rfl, fun _ _ => rfl⟩
  | cons x rest ih =>
    obtain ⟨hmap, hlines, hexits⟩ := ih (l.charge x)
    refine ⟨hmap.trans (l.map_charge x), fun line => ?_, fun line index => ?_⟩
    · rw [List.foldl_cons, hlines, lineHits_charge, List.count_cons]
      simp only [beq_iff_eq]
      omega
    · rw [List.foldl_cons, hexits, exits_charge, List.count_cons]
      simp only [beq_iff_eq]
      omega

/-- After some charges the calls are those before, and one for each charge that finds a function.
    -/
theorem calls_foldl_charge {l : Ledger} (h : l.Complete) (xs : List Charge) :
    (xs.foldl charge l).Complete
      ∧ (xs.foldl charge l).counters.calls
        = l.counters.calls + xs.countP (findsFunction l.map) := by
  induction xs generalizing l with
  | nil => exact ⟨h, rfl⟩
  | cons x rest ih =>
    obtain ⟨hcomplete, hcalls⟩ := ih (complete_charge x h)
    refine ⟨hcomplete, ?_⟩
    rw [List.foldl_cons, hcalls, calls_charge x h, map_charge, List.countP_cons]
    omega

theorem map_charged : (charged m xs).map = m :=
  (foldl_charge xs (ofMap m)).1

theorem complete_charged : (charged m xs).Complete :=
  (calls_foldl_charge (complete_ofMap m) xs).1

/-- A line was hit as often as it was charged. -/
theorem lineHits_charged (line : Nat) : (charged m xs).lineHits line = xs.count (.line line) := by
  rw [charged, (foldl_charge xs (ofMap m)).2.1 line]
  show (Counters.zero m).lineHits line + _ = _
  rw [Counters.lineHits_zero, Nat.zero_add]

/-- An exit was taken as often as it was charged. -/
theorem exits_charged (line index : Nat) :
    (charged m xs).counters.exits.count (line, index) = xs.count (.exit line index) := by
  rw [charged, (foldl_charge xs (ofMap m)).2.2 line index]
  exact Nat.zero_add _

/-- There were as many calls as charges that find a function. -/
theorem calls_charged :
    ((charged m xs).functionHits.map Prod.snd).sum = xs.countP (findsFunction m) := by
  rw [sum_functionHits (complete_charged m xs), charged,
    (calls_foldl_charge (complete_ofMap m) xs).2]
  show (Counters.zero m).calls + _ = _
  rw [Counters.calls_zero, Nat.zero_add]
  rfl

end

end Ledger
end Coverage
