/-
  Coverage.Proofs.Trace.Agreement

  The records of exits in a section agree with those of lines.

  Whoever reads a section sees the counts of the lines of the map, and of no others.  Decisions
  and candidates are lines of the map, so each of them has a record (`mem_records_ran`), and what
  is written for an exit that no one reported is what a reader infers from the records of lines:
  candidates ascend, so the first of them that ran is the smallest (`agrees_exitState`).
-/

import Coverage.Proofs.Hits.Inference
import Coverage.Proofs.Hits.Readings
import Coverage.Proofs.SiteMap.Closed
import Coverage.Proofs.Trace.Records

namespace Coverage

namespace Trace

open Record (takenText takenText_taken takenText_eq_dash)
open Ledger (Charge charged map_charged lineHits_charged exits_charged)
open Script (Program Node Construct)
open SiteMap (ofProgram regular_ofProgram exits_ofProgram_closed pairwise_candidates_canonical)
open Text.Decimal (ofNat ofNat_inj)

variable {path : List Char} {l : Ledger} {line index hits : Nat} {state : ExitState}

/-! ## Records of a section -/

theorem mem_records_ran : .ran line hits ∈ records path l
    ↔ line ∈ l.map.lines ∧ hits = l.lineHits line := by
  simp [records, eq_comm]

theorem mem_records_exit : .exit line index state ∈ records path l
    ↔ ∃ e ∈ l.map.exits, e.line = line ∧ e.index = index ∧ state = l.exitState e := by
  simp [records, eq_comm]

theorem Record.takenText_eq_zero (h : ∀ n, state = .taken n → 0 < n) :
    takenText state = ['0'] ↔ state = .notTaken := by
  cases state with
  | notReached => exact iff_of_false (by decide) nofun
  | notTaken => exact iff_of_true rfl rfl
  | taken n =>
    refine iff_of_false (fun heq => ?_) nofun
    have hzero : min n ExitState.countLimit = 0 := ofNat_inj heq
    have hlimit : 0 < ExitState.countLimit := by decide
    have hn := h n rfl
    omega

/-! ## One exit -/

/-- What is written for an exit that was reported some times agrees with the records of lines:
    they tell of its decision and of all its candidates, and what no report says follows from
    them.  A count above the largest that is written for an exit is written as that. -/
structure Agrees (rs : List Record) (reports : Nat) (e : BranchExit) (value : List Char) :
    Prop where
  decision : ∃ n, .ran e.line n ∈ rs
  candidates : ∀ k ∈ e.candidates, ∃ n, .ran k n ∈ rs
  dash : reports = 0 → (value = ['-'] ↔ .ran e.line 0 ∈ rs)
  zero : reports = 0 → (value = ['0']
    ↔ (∃ n, 0 < n ∧ .ran e.line n ∈ rs) ∧ ∀ k ∈ e.candidates, .ran k 0 ∈ rs)
  smallest : reports = 0 → value ≠ ['-'] → value ≠ ['0'] →
    ∃ k ∈ e.candidates, ∃ n, 0 < n ∧ .ran k n ∈ rs
      ∧ (∀ j ∈ e.candidates, j < k → .ran j 0 ∈ rs) ∧ value = ofNat (min n ExitState.countLimit)
  reported : 0 < reports → value = ofNat (min reports ExitState.countLimit)

/-- In ascending order none but those in front are smaller. -/
theorem mem_front_of_lt {front back ls : List Nat} {j k : Nat} (hls : ls.Pairwise (· < ·))
    (hsplit : ls = front ++ k :: back) (hj : j ∈ ls) (hlt : j < k) : j ∈ front := by
  subst hsplit
  have hback := (List.pairwise_cons.1 (List.pairwise_append.1 hls).2.1).1
  rcases List.mem_append.1 hj with hfront | hrest
  · exact hfront
  · rcases List.mem_cons.1 hrest with rfl | hlater
    · exact absurd hlt (Nat.lt_irrefl j)
    · exact absurd (hback j hlater) (Nat.lt_asymm hlt)

theorem agrees_exitState {rs : List Record} {e : BranchExit}
    (hascend : e.candidates.Pairwise (· < ·))
    (hran : ∀ k ∈ e.line :: e.candidates, ∀ n, .ran k n ∈ rs ↔ n = l.lineHits k) :
    Agrees rs (l.counters.exits.count (e.line, e.index)) e (takenText (l.exitState e)) := by
  obtain ⟨hline, hcandidates⟩ := List.forall_mem_cons.1 hran
  have hpos : ∀ n, l.exitState e = .taken n → 0 < n := fun n => Counters.pos_of_taken
  have hcomes : l.counters.ComesTo e (l.exitState e) := l.counters.comesTo_exitState e
  refine
    { decision := ⟨_, (hline _).2 rfl⟩
      candidates := fun k hk => ⟨_, (hcandidates k hk _).2 rfl⟩
      dash := fun hreports => ?_
      zero := fun hreports => ?_
      smallest := fun hreports hdash hzero => ?_
      reported := fun hreports => ?_ }
  · rw [takenText_eq_dash, Ledger.exitState, Counters.exitState_eq_notReached, hline]
    exact (and_iff_right hreports).trans eq_comm
  · rw [Record.takenText_eq_zero hpos, Ledger.exitState, Counters.exitState_eq_notTaken,
      and_iff_right hreports]
    refine and_congr ?_ (forall₂_congr fun k hk => ?_)
    · simp only [hline, exists_eq_right]
      rfl
    · rw [hcandidates k hk]
      exact eq_comm
  · generalize l.exitState e = state at hcomes hdash hzero ⊢
    cases hcomes with
    | reported h => exact absurd hreports (Nat.ne_of_gt h)
    | notReached _ _ => exact absurd rfl hdash
    | notTaken _ _ _ => exact absurd rfl hzero
    | @first _ _ front back k hsplit hfront hk =>
      -- What is smaller than the first that ran stands in front of it, where none ran.
      have hmem : k ∈ e.candidates := hsplit ▸ List.mem_append_right _ List.mem_cons_self
      refine ⟨k, hmem, _, hk, (hcandidates k hmem _).2 rfl, fun j hj hlt => ?_,
        takenText_taken _⟩
      exact (hcandidates j hj 0).2 (hfront j (mem_front_of_lt hascend hsplit hj hlt)).symm
  · generalize l.exitState e = state at hcomes ⊢
    cases hcomes with
    | reported h => exact takenText_taken _
    | notReached hnone _ => exact absurd hnone (Nat.ne_of_gt hreports)
    | notTaken hnone _ _ => exact absurd hnone (Nat.ne_of_gt hreports)
    | first hnone _ _ _ _ => exact absurd hnone (Nat.ne_of_gt hreports)

/-! ## A section -/

/-- The records of a section with a map agree: a line has one count, and what is written for
    an exit agrees with the lines.  Exits are told apart by line and number, and all are written. -/
structure Consistent (m : SiteMap) (reports : Nat → Nat → Nat) (rs : List Record) : Prop where
  once : ∀ line a b, .ran line a ∈ rs → .ran line b ∈ rs → a = b
  distinct : m.exits.Pairwise fun e f => e.line = f.line → e.index ≠ f.index
  written : ∀ e ∈ m.exits, ∃ state, .exit e.line e.index state ∈ rs
  agrees : ∀ line index state, .exit line index state ∈ rs →
    ∃ e ∈ m.exits, e.line = line ∧ e.index = index
      ∧ Agrees rs (reports line index) e (takenText state)

theorem consistent_records (p : Program) (hmap : l.map = ofProgram p) (path : List Char) :
    Consistent (ofProgram p) (fun line index => l.counters.exits.count (line, index))
      (records path l) where
  once line a b ha hb := (mem_records_ran.1 ha).2.trans (mem_records_ran.1 hb).2.symm
  distinct := by
    refine (regular_ofProgram p).pairwise_exits.imp fun hef hline => ?_
    omega
  written e he := ⟨_, mem_records_exit.2 ⟨e, hmap ▸ he, rfl, rfl, rfl⟩⟩
  agrees line index state h := by
    obtain ⟨e, he, rfl, rfl, rfl⟩ := mem_records_exit.1 h
    rw [hmap] at he
    have hclosed := exits_ofProgram_closed he
    refine ⟨e, he, rfl, rfl, agrees_exitState (pairwise_candidates_canonical he) ?_⟩
    intro k hk n
    -- No counter is asked for but those of lines of the map, and each of these has a record.
    have hline : k ∈ l.map.lines := by
      rw [hmap]
      rcases List.mem_cons.1 hk with rfl | hcandidate
      · exact hclosed.decision
      · exact hclosed.inside k hcandidate
    rw [mem_records_ran, and_iff_right hline]

/-- Whatever was charged to the map of a script: if a section is written, its records of exits
    agree with its records of lines and with how often each exit was reported. -/
theorem section_consistent (p : Program) (xs : List Charge) {path text : List Char}
    (h : section? path (charged (ofProgram p) xs) = some text) :
    text = write (records path (charged (ofProgram p) xs))
      ∧ Consistent (ofProgram p) (fun line index => xs.count (.exit line index))
        (records path (charged (ofProgram p) xs)) := by
  constructor
  · rw [section?, Option.ite_none_right_eq_some] at h
    exact (Option.some.inj h.2).symm
  · have hconsistent := consistent_records p (map_charged _ xs) path
    simp only [exits_charged] at hconsistent
    exact hconsistent

/-- A decision between two statements. -/
def alternative : Program :=
  ⟨[⟨1, 5, .conditional ⟨1, 1, .expression []⟩ ⟨1, 3, .block [⟨2, 2, .statement []⟩]⟩
    (some ⟨3, 5, .block [⟨4, 4, .statement []⟩]⟩)⟩]⟩

theorem exits_alternative :
    (ofProgram alternative).exits = [⟨1, 0, [2]⟩, ⟨1, 1, [4]⟩] := by
  have hfound : alternative.visits.flatMap (fun v => v.1.exits v.2) = [(1, [2]), (1, [4])] := by
    simp [Program.visits, alternative, Script.followed, Script.visits_eq, Node.children,
      Construct.children, Node.exits, Script.candidates, Script.linesTogether, Node.lines_eq,
      Node.isFunction, Node.ownLines, LineSet.ofList, LineSet.insert]
  have hordered : ((Script.numberExits .empty [(1, [2]), (1, [4])]).map BranchExit.ordered).Pairwise
      fun a b => SiteMap.exitLE a b := by
    decide
  rw [ofProgram, SiteMap.canonical_exits, hfound]
  exact (List.mergeSort_of_pairwise hordered).trans (by decide)

/-- The first exit was reported, and the second is told by its line, which ran twice. -/
theorem section_consistent_alternative :
    let l := charged (ofProgram alternative) [.line 1, .exit 1 0, .line 4, .line 4]
    Trace.section? ['a'] l = some (write (records ['a'] l))
      ∧ (∃ state, .exit 1 0 state ∈ records ['a'] l ∧ takenText state = ['1'])
      ∧ ∃ state, .exit 1 1 state ∈ records ['a'] l ∧ takenText state = ['2'] := by
  intro l
  have hsection : section? ['a'] l = some (write (records ['a'] l)) :=
    if_pos (Counters.anyRan_recordLine _ 4)
  obtain ⟨-, hconsistent⟩ :=
    section_consistent alternative [.line 1, .exit 1 0, .line 4, .line 4] hsection
  have hcount : ∀ k n, .ran k n ∈ records ['a'] l →
      n = [Charge.line 1, .exit 1 0, .line 4, .line 4].count (.line k) := fun k n h =>
    (mem_records_ran.1 h).2.trans (lineHits_charged _ _ k)
  have hexits := exits_alternative
  refine ⟨hsection, ?_, ?_⟩
  · obtain ⟨state, hstate⟩ := hconsistent.written ⟨1, 0, [2]⟩ (by simp [hexits])
    obtain ⟨e, -, -, -, hagrees⟩ := hconsistent.agrees 1 0 state hstate
    exact ⟨state, hstate, hagrees.reported (by decide)⟩
  · obtain ⟨state, hstate⟩ := hconsistent.written ⟨1, 1, [4]⟩ (by simp [hexits])
    obtain ⟨e, he, -, hindex, hagrees⟩ := hconsistent.agrees 1 1 state hstate
    obtain rfl : e = ⟨1, 1, [4]⟩ := by
      rw [hexits, List.mem_cons, List.mem_singleton] at he
      rcases he with rfl | rfl
      · cases hindex
      · rfl
    have hdash : takenText state ≠ ['-'] := fun h =>
      absurd (hcount 1 0 ((hagrees.dash rfl).1 h)) (by decide)
    have hzero : takenText state ≠ ['0'] := fun h =>
      absurd (hcount 4 0 (((hagrees.zero rfl).1 h).2 4 List.mem_cons_self)) (by decide)
    obtain ⟨k, hk, n, -, hran, -, hvalue⟩ := hagrees.smallest rfl hdash hzero
    obtain rfl : k = 4 := List.mem_singleton.1 hk
    obtain rfl : n = 2 := hcount 4 n hran
    exact ⟨state, hstate, hvalue⟩

end Trace
end Coverage
