/-
  Coverage.Proofs.Hits.Inference

  What a branch exit has come to, as it is inferred from the counters.

  `ComesTo` tells the ways to infer it apart, each with the counts that lead to it; the state of
  an exit comes about in one of these ways (`comesTo_exitState`).  How far an exit has come, its
  count left out, depends only on which counters are zero (`exitState_eq_notReached`,
  `exitState_eq_notTaken`).
-/

import Coverage.Hits.Ledger

namespace Coverage

namespace ExitState

/-- How far an exit has come: its decision not reached, reached, and the exit taken. -/
def standing : ExitState → Nat
  | .notReached => 0
  | .notTaken => 1
  | .taken _ => 2

/-- An exit stands no higher than another one if what is known of it is known of the other. -/
theorem standing_le_iff {s t : ExitState} : s.standing ≤ t.standing
    ↔ (t = .notReached → s = .notReached)
      ∧ (t = .notTaken → s = .notReached ∨ s = .notTaken) := by
  cases s <;> cases t <;> simp [standing]

/-- What stands no lower than a taken exit is taken. -/
theorem isTaken_of_standing_le {s t : ExitState} (h : s.standing ≤ t.standing)
    (hs : s.isTaken = true) : t.isTaken = true := by
  cases s <;> cases t <;> simp_all [standing, isTaken]

end ExitState

namespace Counters

variable {c : Counters} {e : BranchExit}

/-! ## Ways to infer -/

/-- How the state of an exit comes about: from reports of the exit if there are any, else from
    the line of its decision and from its candidates in their order. -/
inductive ComesTo (c : Counters) (e : BranchExit) : ExitState → Prop
  | reported (h : 0 < c.exits.count (e.line, e.index)) :
      ComesTo c e (.taken (c.exits.count (e.line, e.index)))
  | notReached (hreport : c.exits.count (e.line, e.index) = 0) (hline : c.lineHits e.line = 0) :
      ComesTo c e .notReached
  | notTaken (hreport : c.exits.count (e.line, e.index) = 0) (hline : 0 < c.lineHits e.line)
      (hnone : ∀ l ∈ e.candidates, c.lineHits l = 0) : ComesTo c e .notTaken
  | first (hreport : c.exits.count (e.line, e.index) = 0) (hline : 0 < c.lineHits e.line)
      {front back : List Nat} {l : Nat} (hcandidates : e.candidates = front ++ l :: back)
      (hfront : ∀ k ∈ front, c.lineHits k = 0) (hl : 0 < c.lineHits l) :
      ComesTo c e (.taken (c.lineHits l))

/-- The state of an exit is told by its own count, the hits of its line and those of its
    candidates, and each of the four ways to tell it gives that state. -/
theorem comesTo_exitState (c : Counters) (e : BranchExit) : ComesTo c e (c.exitState e) := by
  unfold exitState
  by_cases hreport : 0 < c.exits.count (e.line, e.index)
  · rw [if_pos hreport]
    exact .reported hreport
  · have hunreported := Nat.eq_zero_of_not_pos hreport
    rw [if_neg hreport]
    by_cases hline : c.lineHits e.line = 0
    · rw [if_pos hline]
      exact .notReached hunreported hline
    · have hran := Nat.pos_of_ne_zero hline
      rw [if_neg hline, List.find?_map]
      cases hfind : e.candidates.find? ((0 < ·) ∘ c.lineHits) with
      | none =>
        refine .notTaken hunreported hran fun l hl => ?_
        simpa using List.find?_eq_none.1 hfind l hl
      | some l =>
        -- The first candidate that ran, and before it those that did not.
        obtain ⟨hl, front, back, hcandidates, hfront⟩ := List.find?_eq_some_iff_append.1 hfind
        refine .first hunreported hran hcandidates (fun k hk => ?_) (of_decide_eq_true hl)
        simpa using hfront k hk

/-! ## How far an exit has come -/

/-- An exit that was taken was taken at least once. -/
theorem pos_of_taken {n : Nat} (htaken : c.exitState e = .taken n) : 0 < n := by
  have hcomes := c.comesTo_exitState e
  rw [htaken] at hcomes
  cases hcomes with
  | reported h => exact h
  | first _ _ _ _ hl => exact hl

/-- An exit was not reached if it was not reported and its line never ran. -/
theorem exitState_eq_notReached : c.exitState e = .notReached
    ↔ c.exits.count (e.line, e.index) = 0 ∧ c.lineHits e.line = 0 := by
  have hcomes := c.comesTo_exitState e
  generalize c.exitState e = state at hcomes ⊢
  cases hcomes with
  | reported h => exact iff_of_false nofun (by omega)
  | notReached hreport hline => exact iff_of_true rfl ⟨hreport, hline⟩
  | notTaken _ hline _ => exact iff_of_false nofun (by omega)
  | first _ hline _ _ _ => exact iff_of_false nofun (by omega)

/-- An exit was reached but not taken if its line ran, and nothing that would tell of it did. -/
theorem exitState_eq_notTaken : c.exitState e = .notTaken
    ↔ c.exits.count (e.line, e.index) = 0 ∧ 0 < c.lineHits e.line
      ∧ ∀ l ∈ e.candidates, c.lineHits l = 0 := by
  have hcomes := c.comesTo_exitState e
  generalize c.exitState e = state at hcomes ⊢
  cases hcomes with
  | reported h => exact iff_of_false nofun (by omega)
  | notReached _ hline => exact iff_of_false nofun (by omega)
  | notTaken hreport hline hnone => exact iff_of_true rfl ⟨hreport, hline, hnone⟩
  | first _ _ hcandidates _ hl =>
    refine iff_of_false nofun ?_
    rintro ⟨-, -, hnone⟩
    have hmem : _ ∈ e.candidates := hcandidates ▸ List.mem_append_right _ List.mem_cons_self
    exact absurd (hnone _ hmem) (Nat.ne_of_gt hl)

/-- Where no counter is behind, no exit is: another candidate may have come to be the first that
    ran, but none stops to have run. -/
theorem standing_mono {d : Counters}
    (hexits : ∀ line index, c.exits.count (line, index) ≤ d.exits.count (line, index))
    (hlines : ∀ line, c.lineHits line ≤ d.lineHits line) (e : BranchExit) :
    (c.exitState e).standing ≤ (d.exitState e).standing := by
  have hreport := hexits e.line e.index
  have hline := hlines e.line
  simp only [ExitState.standing_le_iff, exitState_eq_notReached, exitState_eq_notTaken]
  constructor
  · rintro ⟨hzero, hidle⟩
    omega
  · rintro ⟨hzero, -, hnone⟩
    -- Candidates of which none ran later had not run before.
    have hbefore : ∀ l ∈ e.candidates, c.lineHits l = 0 := by
      intro l hl
      exact Nat.le_zero.1 (hnone l hl ▸ hlines l)
    rcases Nat.eq_zero_or_pos (c.lineHits e.line) with hidle | hran
    · exact .inl ⟨by omega, hidle⟩
    · exact .inr ⟨by omega, hran, hbefore⟩

end Counters
end Coverage
