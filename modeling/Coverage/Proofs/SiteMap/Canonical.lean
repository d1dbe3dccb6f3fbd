/-
  Coverage.Proofs.SiteMap.Canonical

  What the canonical form of a site map depends on.

  `LineSet.ofList` sees only which lines are there, and sorting exits and functions sees
  only their keys and the order in which they come; `canonical_congr` puts the two together.
  So a reader that finds the rows of a map in any state of repetition, but in their order,
  finds the canonical map.  A map whose parts are in order already is canonical
  (`canonical_of_pairwise`), so there is nothing more to do to a canonical map.
-/

import Coverage.SiteMap.Basic

namespace Coverage

/-! ## Sets of lines -/

namespace LineSet

/-- Lines in order are told by which there are. -/
theorem eq_of_mem_iff {s t : List Nat} (hs : s.Pairwise (· < ·)) (ht : t.Pairwise (· < ·))
    (h : ∀ l, l ∈ s ↔ l ∈ t) : s = t := by
  have hperm : s.Perm t := by
    rw [List.perm_ext_iff_of_nodup (hs.imp Nat.ne_of_lt) (ht.imp Nat.ne_of_lt)]
    exact h
  exact hperm.eq_of_pairwise (fun a b _ _ hab hba => by omega) hs ht

/-- A set depends only on which lines are there. -/
theorem ofList_congr {ls ms : List Nat} (h : ∀ l, l ∈ ls ↔ l ∈ ms) : ofList ls = ofList ms := by
  refine eq_of_mem_iff (pairwise_ofList ls) (pairwise_ofList ms) ?_
  intro l
  rw [mem_ofList, mem_ofList]
  exact h l

/-- Lines in order stay as they are. -/
theorem ofList_of_pairwise {ls : List Nat} (h : ls.Pairwise (· < ·)) : ofList ls = ls :=
  eq_of_mem_iff (pairwise_ofList ls) h fun _ => mem_ofList

end LineSet

/-- The largest of some numbers and a first one is not below any of them. -/
theorem le_foldl_max (ns : List Nat) (a : Nat) :
    a ≤ ns.foldl max a ∧ ∀ n ∈ ns, n ≤ ns.foldl max a := by
  induction ns generalizing a with
  | nil => simp
  | cons n rest ih =>
    obtain ⟨ha, hrest⟩ := ih (max a n)
    rw [List.foldl_cons]
    refine ⟨by omega, ?_⟩
    intro k hk
    rcases List.mem_cons.1 hk with rfl | hk
    · omega
    · exact hrest k hk

/-! ## The order of exits and functions -/

namespace SiteMap

/-- Exits are in order of line, and on one line in order of number. -/
theorem exitLE_iff {a b : BranchExit} :
    exitLE a b = true ↔ a.line < b.line ∨ (a.line = b.line ∧ a.index ≤ b.index) := by
  simp only [exitLE, Bool.or_eq_true, Bool.and_eq_true, decide_eq_true_eq, beq_iff_eq]

theorem functionLE_iff {a b : FunctionSpan} : functionLE a b = true ↔ a.key ≤ b.key := by
  simp only [functionLE, Bool.not_eq_true', decide_eq_false_iff_not, String.not_lt]

theorem exitLE_trans (a b c : BranchExit) (hab : exitLE a b) (hbc : exitLE b c) :
    exitLE a c := by
  rw [exitLE_iff] at *
  omega

theorem exitLE_total (a b : BranchExit) : exitLE a b || exitLE b a := by
  rw [Bool.or_eq_true, exitLE_iff, exitLE_iff]
  omega

theorem functionLE_trans (a b c : FunctionSpan) (hab : functionLE a b) (hbc : functionLE b c) :
    functionLE a c := by
  rw [functionLE_iff] at *
  exact String.le_trans hab hbc

theorem functionLE_total (a b : FunctionSpan) : functionLE a b || functionLE b a := by
  rw [Bool.or_eq_true, functionLE_iff, functionLE_iff]
  exact String.le_total a.key b.key

theorem pairwise_sorted_exits (es : List BranchExit) :
    (es.mergeSort exitLE).Pairwise (fun a b => exitLE a b) :=
  List.pairwise_mergeSort exitLE_trans exitLE_total es

theorem pairwise_sorted_functions (fs : List FunctionSpan) :
    (fs.mergeSort functionLE).Pairwise (fun a b => functionLE a b) :=
  List.pairwise_mergeSort functionLE_trans functionLE_total fs

end SiteMap

/-! ## Canonical maps -/

/-- The exit with its candidates as a set. -/
def BranchExit.ordered (e : BranchExit) : BranchExit :=
  { e with candidates := LineSet.ofList e.candidates }

namespace BranchExit

/-- What an exit is told apart by within its map. -/
def key (e : BranchExit) : Nat × Nat :=
  (e.line, e.index)

/-- The order of exits does not look at candidates. -/
theorem exitLE_ordered (a b : BranchExit) :
    SiteMap.exitLE a b = SiteMap.exitLE a.ordered b.ordered := rfl

end BranchExit

namespace SiteMap

/-- No two exits of a map agree in line and number, and no two functions in key. -/
structure Distinct (m : SiteMap) : Prop where
  exits : (m.exits.map BranchExit.key).Nodup
  functions : (m.functions.map FunctionSpan.key).Nodup

theorem eq_of_parts {m n : SiteMap} (hl : m.lines = n.lines) (he : m.exits = n.exits)
    (hf : m.functions = n.functions) : m = n := by
  cases m
  cases n
  simp only [mk.injEq]
  exact ⟨hl, he, hf⟩

/-- The exits of a canonical map: sets of candidates first, then the order. -/
theorem canonical_exits (m : SiteMap) :
    m.canonical.exits = (m.exits.map BranchExit.ordered).mergeSort exitLE :=
  List.map_mergeSort fun a _ b _ => BranchExit.exitLE_ordered a b

theorem canonical_functions (m : SiteMap) :
    m.canonical.functions = m.functions.mergeSort functionLE := rfl

/-- The lines of a canonical map ascend. -/
theorem pairwise_canonical_lines (m : SiteMap) : m.canonical.lines.Pairwise (· < ·) :=
  LineSet.pairwise_ofList m.lines

theorem pairwise_canonical_exits (m : SiteMap) :
    m.canonical.exits.Pairwise (fun a b => exitLE a b) := by
  rw [canonical_exits]
  exact pairwise_sorted_exits _

theorem pairwise_canonical_functions (m : SiteMap) :
    m.canonical.functions.Pairwise (fun a b => functionLE a b) :=
  pairwise_sorted_functions m.functions

/-- The candidates of each of its exits ascend. -/
theorem pairwise_candidates_canonical {m : SiteMap} {e : BranchExit} (h : e ∈ m.canonical.exits) :
    e.candidates.Pairwise (· < ·) := by
  rw [canonical_exits, List.mem_mergeSort] at h
  obtain ⟨d, -, rfl⟩ := List.mem_map.1 h
  exact LineSet.pairwise_ofList d.candidates

/-- Maps that agree in which lines and candidates they hold, and in the order of their exits
    and functions, have one canonical form. -/
theorem canonical_congr {m n : SiteMap} (hlines : ∀ l, l ∈ m.lines ↔ l ∈ n.lines)
    (hexits : m.exits.map BranchExit.ordered = n.exits.map BranchExit.ordered)
    (hfunctions : m.functions = n.functions) : m.canonical = n.canonical := by
  have hl : m.canonical.lines = n.canonical.lines := LineSet.ofList_congr hlines
  have he : m.canonical.exits = n.canonical.exits := by
    rw [canonical_exits, canonical_exits, hexits]
  have hf : m.canonical.functions = n.canonical.functions := by
    rw [canonical_functions, canonical_functions, hfunctions]
  exact eq_of_parts hl he hf

/-- A map whose parts are in order is canonical. -/
theorem canonical_of_pairwise {m : SiteMap} (hlines : m.lines.Pairwise (· < ·))
    (hexits : m.exits.Pairwise fun a b => exitLE a b)
    (hcandidates : ∀ e ∈ m.exits, e.candidates.Pairwise (· < ·))
    (hfunctions : m.functions.Pairwise fun a b => functionLE a b) : m.canonical = m := by
  have hordered : m.exits.map BranchExit.ordered = m.exits := by
    rw [List.map_congr_left (g := id) fun e he => ?_, List.map_id]
    rw [BranchExit.ordered, LineSet.ofList_of_pairwise (hcandidates e he)]
    rfl
  have he : m.canonical.exits = m.exits := by
    rw [canonical_exits, hordered]
    exact List.mergeSort_of_pairwise hexits
  exact eq_of_parts (LineSet.ofList_of_pairwise hlines) he (List.mergeSort_of_pairwise hfunctions)

/-- Nothing more is to be done to a canonical map. -/
theorem canonical_canonical (m : SiteMap) : m.canonical.canonical = m.canonical :=
  canonical_of_pairwise (pairwise_canonical_lines m) (pairwise_canonical_exits m)
    (fun _ he => pairwise_candidates_canonical he) (pairwise_canonical_functions m)

end SiteMap
end Coverage
