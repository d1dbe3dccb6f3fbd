/-
  Coverage.Proofs.Hits.Progress

  Coverage never goes backwards.

  A charge adds one to the counter it is for, if there is one, and leaves all others
  (`reading_charge`).  How often an exit was taken may drop, where an inference comes to an earlier
  candidate; but how far it has come does not, and neither does anything else that is read
  (`Onward`).  This holds of one charge (`onward_charge`), and by induction of all later ones
  (`onward_foldl_charge`).
-/

import Coverage.Proofs.Hits.Inference
import Coverage.Proofs.Hits.Readings

namespace Coverage

/-! ## Tallies -/

namespace Tally

/-- A later tally of the same things: as many are found, and no fewer are hit. -/
structure Onward (s t : Tally) : Prop where
  found : t.found = s.found
  hit : s.hit ≤ t.hit

variable {s t u : Tally}

theorem Onward.refl (t : Tally) : Onward t t :=
  ⟨rfl, Nat.le_refl _⟩

theorem Onward.trans (h : Onward s t) (h' : Onward t u) : Onward s u :=
  ⟨h'.found.trans h.found, Nat.le_trans h.hit h'.hit⟩

/-- No more is hit than there is. -/
theorem hit_le_found (hits : List Bool) : (ofHits hits).hit ≤ (ofHits hits).found :=
  List.countP_le_length

/-- Of some things, those that are hit later are hit as well as those that are hit now. -/
theorem onward_ofHits {α : Type} {as : List α} {p q : α → Bool}
    (h : ∀ a ∈ as, p a = true → q a = true) :
    Onward (ofHits (as.map p)) (ofHits (as.map q)) := by
  constructor
  · simp only [ofHits, List.length_map]
  · simp only [ofHits, List.countP_map, Function.id_comp]
    exact List.countP_mono_left h

end Tally

namespace Ledger

/-! ## Counters -/

/-- The counters of a file: one for every line, one for every function by its slot, and one for
    every exit that an engine reports. -/
inductive Counter where
  | line (line : Nat)
  | function (slot : Nat)
  | exit (line index : Nat)
  deriving DecidableEq

/-- What a counter stands at. -/
def reading (l : Ledger) : Counter → Nat
  | .line line => l.lineHits line
  | .function slot => l.counters.functionHits slot
  | .exit line index => l.counters.exits.count (line, index)

/-- The counter that a charge is for: that of its line or its exit, or of the function it finds. -/
def counterFor? (l : Ledger) : Charge → Option Counter
  | .line line => some (.line line)
  | .exit line index => some (.exit line index)
  | .call key => (l.slotOf? key).map .function
  | .entry name line => (l.slotEntered? name line).map .function

variable {k l n : Ledger}

/-- The counter of a line is that of charges of the line. -/
theorem counterFor?_line {x : Charge} {line : Nat} :
    l.counterFor? x = some (.line line) ↔ x = .line line := by
  cases x <;> simp [counterFor?]

/-- The counter of an exit is that of charges of the exit. -/
theorem counterFor?_exit {x : Charge} {line index : Nat} :
    l.counterFor? x = some (.exit line index) ↔ x = .exit line index := by
  cases x <;> simp [counterFor?]

/-- The counter of a slot is that of charges that count in the slot. -/
theorem counterFor?_function {x : Charge} {slot : Nat} :
    l.counterFor? x = some (.function slot) ↔ l.slotFor? x = some slot := by
  cases x <;> simp [counterFor?, slotFor?]

/-- Which counter a charge is for depends on the map alone, so it is the same all along. -/
theorem counterFor?_ofMap (l : Ledger) (x : Charge) :
    l.counterFor? x = (ofMap l.map).counterFor? x := by
  cases x <;> rfl

/-- A charge adds one to the counter it is for, and to no other. -/
theorem reading_charge (h : l.Complete) (x : Charge) (c : Counter) :
    (l.charge x).reading c = l.reading c + if l.counterFor? x = some c then 1 else 0 := by
  cases c with
  | line line =>
    simp only [counterFor?_line]
    exact l.lineHits_charge x line
  | function slot =>
    simp only [counterFor?_function]
    exact functionHits_charge h x slot
  | exit line index =>
    simp only [counterFor?_exit]
    exact l.exits_charge x line index

/-! ## What is read later -/

/-- What is read from a file is never behind what was read before: no counter and no exit, no
    total, and the section that is written. -/
structure Onward (k l : Ledger) : Prop where
  readings : ∀ c, k.reading c ≤ l.reading c
  states : ∀ e, (k.exitState e).standing ≤ (l.exitState e).standing
  lines : k.totals.lines.Onward l.totals.lines
  branches : k.totals.branches.Onward l.totals.branches
  functions : k.totals.functions.Onward l.totals.functions
  written : ∀ path, (Trace.section? path k).isSome = true → (Trace.section? path l).isSome = true

theorem Onward.refl (l : Ledger) : Onward l l where
  readings _ := Nat.le_refl _
  states _ := Nat.le_refl _
  lines := .refl _
  branches := .refl _
  functions := .refl _
  written _ := id

theorem Onward.trans (h : Onward k l) (h' : Onward l n) : Onward k n where
  readings c := Nat.le_trans (h.readings c) (h'.readings c)
  states e := Nat.le_trans (h.states e) (h'.states e)
  lines := h.lines.trans h'.lines
  branches := h.branches.trans h'.branches
  functions := h.functions.trans h'.functions
  written path hwritten := h'.written path (h.written path hwritten)

/-- A file has a section in a trace as soon as something ran. -/
theorem isSome_section? {path : List Char} :
    (Trace.section? path l).isSome = true ↔ l.counters.anyRan = true := by
  rw [Trace.section?, Option.isSome_ite]

/-- All else that is read follows from the counters, and from whether something ran. -/
theorem onward_of_readings (hmap : l.map = k.map) (h : ∀ c, k.reading c ≤ l.reading c)
    (hran : k.counters.anyRan = true → l.counters.anyRan = true) : Onward k l := by
  have hstates : ∀ e, (k.exitState e).standing ≤ (l.exitState e).standing :=
    Counters.standing_mono (fun line index => h (.exit line index)) fun line => h (.line line)
  -- What is hit is told by whether a counter is above zero, and these stay so.
  have hpos : ∀ c, 0 < k.reading c → 0 < l.reading c := fun c hc => Nat.lt_of_lt_of_le hc (h c)
  refine ⟨h, hstates, ?_, ?_, ?_, fun path => ?_⟩
  · simp only [totals, hmap]
    refine Tally.onward_ofHits fun line _ hline => ?_
    rw [decide_eq_true_eq] at hline ⊢
    exact hpos (.line line) hline
  · simp only [totals, hmap]
    exact Tally.onward_ofHits fun e _ => ExitState.isTaken_of_standing_le (hstates e)
  · simp only [totals, functionHits, slots, hmap, List.map_map]
    refine Tally.onward_ofHits fun f _ hf => ?_
    rw [Function.comp_apply, decide_eq_true_eq] at hf ⊢
    exact hpos (.function f.2) hf
  · rw [isSome_section?, isSome_section?]
    exact hran

/-! ## Charges -/

/-- No charge takes back what was read before it. -/
theorem onward_charge (h : l.Complete) (x : Charge) : Onward l (l.charge x) := by
  refine onward_of_readings (l.map_charge x) (fun c => ?_) fun hran => ?_
  · rw [reading_charge h]
    exact Nat.le_add_right _ _
  · rw [anyRan_charge h, hran, Bool.or_true]

/-- Nor does a run of charges, by induction on it. -/
theorem onward_foldl_charge (h : l.Complete) (xs : List Charge) :
    Onward l (xs.foldl charge l) := by
  induction xs generalizing l with
  | nil => exact .refl l
  | cons x rest ih => exact (onward_charge h x).trans (ih (complete_charge x h))

/-- However a file was charged: one more charge adds one to at most one counter, after any more
    nothing that is read has gone back, no exit was taken zero times, and of no category more is
    hit than found. -/
theorem charged_onward (m : SiteMap) (xs later : List Charge) (x : Charge) :
    (∀ c, (charged m (xs ++ [x])).reading c
        = (charged m xs).reading c + if (ofMap m).counterFor? x = some c then 1 else 0)
      ∧ Onward (charged m xs) (charged m (xs ++ later))
      ∧ (∀ e n, (charged m xs).exitState e = .taken n → 0 < n)
      ∧ ∀ t ∈ [(charged m xs).totals.lines, (charged m xs).totals.branches,
        (charged m xs).totals.functions], t.hit ≤ t.found := by
  have hcomplete := complete_charged m xs
  have hmore : ∀ ys, charged m (xs ++ ys) = ys.foldl charge (charged m xs) := fun ys =>
    List.foldl_append
  refine ⟨fun c => ?_, ?_, fun e n => Counters.pos_of_taken, ?_⟩
  · have hcounter := (charged m xs).counterFor?_ofMap x
    rw [map_charged] at hcounter
    rw [hmore, ← hcounter]
    exact reading_charge hcomplete x c
  · rw [hmore]
    exact onward_foldl_charge hcomplete later
  · simp only [List.forall_mem_cons]
    exact ⟨Tally.hit_le_found _, Tally.hit_le_found _, Tally.hit_le_found _,
      List.forall_mem_nil _⟩

/-- How often an exit was taken drops when an earlier candidate runs that has run less often. -/
example :
    let l := charged ⟨[1, 2, 3], [⟨1, 0, [2, 3]⟩], []⟩ [.line 1, .line 3, .line 3]
    l.exitState ⟨1, 0, [2, 3]⟩ = .taken 2
      ∧ (l.charge (.line 2)).exitState ⟨1, 0, [2, 3]⟩ = .taken 1 := by
  decide

end Ledger
end Coverage
