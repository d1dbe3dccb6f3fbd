/-
  Coverage.Proofs.SiteMap.Regular

  What the site map of every script is like.

  A site map is regular if it is canonical, the exits of every line are numbered from zero
  without a gap, and no function ends before it begins.  A survey numbers exits before they
  are sorted; sorting by line and number then leaves the exits of each line in the order of
  their numbers (`regular_ofProgram`).
-/

import Coverage.Proofs.SiteMap.Canonical
import Coverage.SiteMap.Survey

namespace Coverage.SiteMap

/-- The exits of a line. -/
def exitsOn (line : Nat) (exits : List BranchExit) : List BranchExit :=
  exits.filter fun e => e.line = line

/-- A site map as it is made of a script, whatever keys its functions have. -/
structure Regular (m : SiteMap) : Prop where
  canonical : m.canonical = m
  numbered : ∀ line, (exitsOn line m.exits).map BranchExit.index
    = List.range (exitsOn line m.exits).length
  spans : ∀ f ∈ m.functions, f.line ≤ f.endLine

theorem exitsOn_cons_self (e : BranchExit) (rest : List BranchExit) :
    exitsOn e.line (e :: rest) = e :: exitsOn e.line rest :=
  List.filter_cons_of_pos (by simp)

theorem exitsOn_cons_of_ne {e : BranchExit} {line : Nat} (h : e.line ≠ line)
    (rest : List BranchExit) : exitsOn line (e :: rest) = exitsOn line rest :=
  List.filter_cons_of_neg (by simpa using h)

/-! ## Numbers -/

open Script (numberExits numberFunctions)

/-- The numbers given to the exits of a line go on from those that were met before. -/
theorem index_numberExits (found : List (Nat × List Nat)) (met : Bag Nat) (line : Nat) :
    (exitsOn line (numberExits met found)).map BranchExit.index
      = List.range' (met.count line) (exitsOn line (numberExits met found)).length := by
  induction found generalizing met with
  | nil => rfl
  | cons p rest ih =>
    obtain ⟨l, ls⟩ := p
    have hrest := ih (met.add l)
    rw [Bag.count_add] at hrest
    rw [numberExits]
    by_cases hl : l = line
    · subst hl
      rw [if_pos rfl] at hrest
      rw [exitsOn_cons_self ⟨l, met.count l, ls⟩, List.map_cons, List.length_cons,
        List.range'_succ, hrest]
    · rw [if_neg fun h => hl h.symm, Nat.add_zero] at hrest
      rw [exitsOn_cons_of_ne hl, hrest]

/-- Exits of one line that are sorted are in the order of their numbers. -/
theorem pairwise_index_sorted (exits : List BranchExit) (line : Nat) :
    ((exitsOn line (exits.mergeSort exitLE)).map BranchExit.index).Pairwise (· ≤ ·) := by
  rw [List.pairwise_map]
  have hsorted := (pairwise_sorted_exits exits).filter fun e => e.line = line
  refine hsorted.imp_of_mem fun {a b} ha hb hle => ?_
  have haline : a.line = line := by simpa using (List.mem_filter.1 ha).2
  have hbline : b.line = line := by simpa using (List.mem_filter.1 hb).2
  rw [exitLE_iff] at hle
  omega

/-- Exits that were numbered without a gap stand in order of their numbers once sorted. -/
theorem index_sorted {exits : List BranchExit} {line : Nat}
    (h : (exitsOn line exits).map BranchExit.index = List.range (exitsOn line exits).length) :
    (exitsOn line (exits.mergeSort exitLE)).map BranchExit.index
      = List.range (exitsOn line (exits.mergeSort exitLE)).length := by
  have hperm : (exitsOn line (exits.mergeSort exitLE)).Perm (exitsOn line exits) :=
    (List.mergeSort_perm exits exitLE).filter _
  have hindices : ((exitsOn line (exits.mergeSort exitLE)).map BranchExit.index).Perm
      (List.range (exitsOn line exits).length) := by
    rw [← h]
    exact hperm.map _
  -- Two ascending lists of the same numbers are equal.
  rw [hperm.length_eq]
  refine hindices.eq_of_pairwise (fun a b _ _ hab hba => Nat.le_antisymm hab hba)
    (pairwise_index_sorted exits line) ?_
  exact List.pairwise_lt_range.imp Nat.le_of_lt

theorem line_le_endLine_numberFunctions {f : FunctionSpan} (defs : List Script.Definition)
    (met : Bag (Option String × Nat)) (h : f ∈ numberFunctions met defs) :
    f.line ≤ f.endLine := by
  induction defs generalizing met with
  | nil => exact absurd h List.not_mem_nil
  | cons d rest ih =>
    rw [numberFunctions] at h
    rcases List.mem_cons.1 h with rfl | hrest
    · exact Nat.le_max_right _ _
    · exact ih _ hrest

/-- Every script has a regular site map. -/
theorem regular_ofProgram (p : Script.Program) : (ofProgram p).Regular where
  canonical := canonical_canonical _
  numbered := fun line => by
    have hnumbers := index_numberExits (p.visits.flatMap fun v => v.1.exits v.2) .empty line
    rw [Bag.count_empty, ← List.range_eq_range'] at hnumbers
    have hordered : exitsOn line (ofProgram p).exits
        = (exitsOn line ((numberExits .empty
            (p.visits.flatMap fun v => v.1.exits v.2)).mergeSort exitLE)).map
          BranchExit.ordered := List.filter_map
    rw [hordered, List.map_map, List.length_map]
    exact index_sorted hnumbers
  spans := fun f hf => by
    have hmem : f ∈ numberFunctions .empty (p.visits.filterMap fun v => v.1.function?) :=
      List.mem_mergeSort.1 hf
    exact line_le_endLine_numberFunctions _ _ hmem

/-! ## Distinct exits -/

/-- What holds between the exits of each line holds between all exits that share a line. -/
theorem pairwise_of_exitsOn {R : BranchExit → BranchExit → Prop} {exits : List BranchExit}
    (h : ∀ line, (exitsOn line exits).Pairwise R) :
    exits.Pairwise fun a b => a.line = b.line → R a b := by
  induction exits with
  | nil => exact List.Pairwise.nil
  | cons e rest ih =>
    refine List.pairwise_cons.2 ⟨?_, ih fun line => ?_⟩
    · intro f hf hline
      have hfirst := h e.line
      rw [exitsOn_cons_self] at hfirst
      refine (List.pairwise_cons.1 hfirst).1 f (List.mem_filter.2 ⟨hf, ?_⟩)
      simpa using hline.symm
    · exact (h line).sublist ((List.sublist_cons_self e rest).filter _)

/-- The exits of a regular map stand in strictly ascending order of line and number. -/
theorem Regular.pairwise_exits {m : SiteMap} (h : m.Regular) :
    m.exits.Pairwise fun a b => a.line < b.line ∨ (a.line = b.line ∧ a.index < b.index) := by
  have hline : ∀ line, (exitsOn line m.exits).Pairwise fun a b => a.index < b.index := by
    intro line
    rw [← List.pairwise_map, h.numbered line]
    exact List.pairwise_lt_range
  have hsorted : m.exits.Pairwise fun a b => exitLE a b := by
    rw [← h.canonical]
    exact pairwise_canonical_exits m
  refine (hsorted.and (pairwise_of_exitsOn hline)).imp ?_
  intro a b hab
  have hle := exitLE_iff.1 hab.1
  by_cases heq : a.line = b.line
  · exact .inr ⟨heq, hab.2 heq⟩
  · exact .inl (by omega)

end Coverage.SiteMap
