/-
  Coverage.Proofs.SiteMap.Onward

  Where the labels of a switch and the end of a loop lead.

  A label runs the statements of the first case from it on that has any (`RunsFrom`), so labels
  that share a body share its lines.  A loop that tests last is left for the first line of the
  members after it (`FirstRun`), and there are such members only in a block and in the script
  itself.  `Program.outlets` lists the exits of all decisions with the members after each; each
  exit of the map belongs to one of them, and has the candidates that these relations tell
  (`outlets_lead`).
-/

import Coverage.Proofs.Script.Following
import Coverage.Proofs.SiteMap.InReach

namespace Coverage.Script

/-! ## Labels -/

/-- The statements that run when a switch is entered at a label: those of the first case from it
    on that has any. -/
inductive RunsFrom (cases : List (Case Node)) (i : Nat) : List Node → Prop
  | case {j : Nat} {c : Case Node} (hij : i ≤ j) (hc : cases[j]? = some c)
      (hstatements : c.consequent ≠ [])
      (hempty : ∀ k d, i ≤ k → k < j → cases[k]? = some d → d.consequent = []) :
      RunsFrom cases i c.consequent
  | nothing (hempty : ∀ k d, i ≤ k → cases[k]? = some d → d.consequent = []) : RunsFrom cases i []

/-- A label runs its own statements, or if it has none those of the next label. -/
theorem runsFrom_statementsFrom (cases : List (Case Node)) (i : Nat) :
    RunsFrom cases i (statementsFrom cases i) := by
  unfold statementsFrom
  cases hfound : (cases.drop i).find? fun c => !c.consequent.isEmpty with
  | none =>
    refine .nothing fun k d hik hd => ?_
    have hmem : d ∈ cases.drop i := by
      refine List.mem_of_getElem? (i := k - i) ?_
      rw [List.getElem?_drop, Nat.add_sub_cancel' hik, hd]
    simpa using List.find?_eq_none.1 hfound d hmem
  | some c =>
    -- The search counts from the label on, the relation from the first case.
    obtain ⟨hstatements, n, hn, hc, hbefore⟩ := List.find?_eq_some_iff_getElem.1 hfound
    refine .case (j := i + n) (Nat.le_add_right i n) ?_ (by simpa using hstatements) ?_
    · rw [← List.getElem?_drop, List.getElem?_eq_getElem hn, hc]
    · intro k d hik hkn hd
      have hk : k - i < n := by omega
      have hlt : k - i < (cases.drop i).length := Nat.lt_trans hk hn
      have hget : (cases.drop i)[k - i] = d := by
        apply Option.some.inj
        rw [← List.getElem?_eq_getElem, List.getElem?_drop, Nat.add_sub_cancel' hik, hd]
      simpa [hget] using hbefore (k - i) hk

/-- A label with statements of its own runs these. -/
theorem RunsFrom.eq_consequent {cases : List (Case Node)} {i : Nat} {ns : List Node}
    (h : RunsFrom cases i ns) {c : Case Node} (hc : cases[i]? = some c)
    (hstatements : c.consequent ≠ []) : ns = c.consequent := by
  cases h with
  | @case j d hij hd _ hempty =>
    rcases Nat.eq_or_lt_of_le hij with rfl | hlt
    · rw [hc] at hd
      rw [Option.some.inj hd]
    · exact absurd (hempty i c (Nat.le_refl i) hlt hc) hstatements
  | nothing hempty => exact absurd (hempty i c (Nat.le_refl i) hc) hstatements

/-! ## What runs next -/

/-- The line that runs first among some members: the least of the first one that runs any. -/
inductive FirstRun : List Node → Option Nat → Prop
  | line {idle rest : List Node} {n : Node} {l : Nat}
      (hidle : ∀ m ∈ idle, ∀ k, ¬m.RunsTogether k) (hl : n.RunsTogether l)
      (hleast : ∀ k, n.RunsTogether k → l ≤ k) : FirstRun (idle ++ n :: rest) (some l)
  | none {members : List Node} (hidle : ∀ m ∈ members, ∀ k, ¬m.RunsTogether k) :
      FirstRun members none

/-- The first line of some members is that of the first one that runs anything. -/
theorem firstRun_firstLine? (members : List Node) : FirstRun members (firstLine? members) := by
  unfold firstLine?
  cases hfound : members.findSome? fun n => (linesTogether [n]).head? with
  | none =>
    refine .none fun m hm => idle_of_head? ?_
    exact List.findSome?_eq_none_iff.1 hfound m hm
  | some l =>
    obtain ⟨idle, n, rest, rfl, hl, hidle⟩ := List.findSome?_eq_some_iff.1 hfound
    exact .line (fun m hm => idle_of_head? (hidle m hm)) (least_of_head? hl).1
      (least_of_head? hl).2

/-! ## Exits of decisions where they stand -/

/-- How many exits a node decides between. -/
def Node.exitCount (n : Node) : Nat :=
  match n.construct with
  | .conditional _ _ none => 1
  | .conditional _ _ (some _) => 2
  | .switch _ cases => cases.length
  | .loop .testLast _ _ => 2
  | .loop .. => 1
  | _ => 0

/-- An exit of a decision somewhere in a script. -/
structure Outlet where
  decision : Node
  /-- The members that come after the decision. -/
  later : List Node
  /-- The number among the exits of the decision. -/
  number : Nat

/-- The exits of all decisions, in preorder of these and as each has them. -/
def Program.outlets (p : Program) : List Outlet :=
  p.nodesBefore.flatMap fun x => (List.range x.1.exitCount).map fun i => ⟨x.1, x.2, i⟩

/-- A node has as many ways as it is said to have exits. -/
theorem Node.length_ways (n : Node) (after : Option Nat) : (n.ways after).length = n.exitCount := by
  obtain ⟨line, endLine, construct⟩ := n
  cases construct with
  | conditional test consequent alternate => cases alternate <;> rfl
  | switch discriminant cases =>
    show ((List.range cases.length).map _).length = cases.length
    rw [List.length_map, List.length_range]
  | loop form head body => cases form <;> rfl
  | _ => rfl

/-- The ways out of all decisions, each with the outlet that it belongs to. -/
def Program.waysOut (p : Program) : List (Outlet × Way) :=
  p.nodesBefore.flatMap fun x =>
    (x.1.ways (asMet x).2).zipIdx.map fun y => (⟨x.1, x.2, y.2⟩, y.1)

/-- The outlets of a script have one way each. -/
theorem Program.map_fst_waysOut (p : Program) : p.waysOut.map Prod.fst = p.outlets := by
  rw [waysOut, outlets, List.map_flatMap]
  refine List.flatMap_congr fun x _ => ?_
  rw [← x.1.length_ways (asMet x).2, List.range_eq_range', ← List.zipIdx_map_snd, List.map_map,
    List.map_map]
  rfl

/-- The ways of a script are those of its outlets. -/
theorem Program.ways_eq (p : Program) :
    p.ways = p.waysOut.map fun x => (x.1.decision.decisionLine, x.2) := by
  rw [ways, waysOut, p.visits_eq, List.flatMap_map, List.map_flatMap]
  refine List.flatMap_congr fun x _ => ?_
  conv_lhs => rw [← List.zipIdx_map_fst 0 (Node.ways (asMet x).1 (asMet x).2)]
  rw [List.map_map, List.map_map]
  rfl

/-- A way out of all is the one with the number of its outlet. -/
theorem Program.way_of_mem {p : Program} {o : Outlet} {w : Way} (h : (o, w) ∈ p.waysOut) :
    (o.decision.ways (asMet (o.decision, o.later)).2)[o.number]? = some w := by
  obtain ⟨x, -, hx⟩ := List.mem_flatMap.1 h
  obtain ⟨y, hy, heq⟩ := List.mem_map.1 hx
  obtain ⟨rfl, rfl⟩ := Prod.mk.inj heq
  exact List.mem_zipIdx_iff_getElem?.1 hy

/-! ## Candidates -/

/-- The exit of a label has the lines that run from it on, but for that of the decision. -/
structure LabelLeads (cases : List (Case Node)) (i : Nat) (e : BranchExit) : Prop where
  candidates : ∃ ns, RunsFrom cases i ns
    ∧ ∀ l, l ∈ e.candidates ↔ (∃ n ∈ ns, n.RunsTogether l) ∧ l ≠ e.line
  /-- A label with statements of its own takes no line from a later case. -/
  own : ∀ c, cases[i]? = some c → c.consequent ≠ [] →
    ∀ l ∈ e.candidates, ∃ n ∈ c.consequent, n.RunsTogether l

/-- The exit that leaves a loop has the line that runs next among the members after the loop, but
    for that of the decision. -/
structure LeaveLeads (later : List Node) (e : BranchExit) : Prop where
  candidates : ∃ after, FirstRun later after ∧ ∀ l, l ∈ e.candidates ↔ after = some l ∧ l ≠ e.line
  atMostOne : e.candidates.length ≤ 1
  /-- After the last member, and where there are no members, there is none. -/
  last : later = [] → e.candidates = []

/-- Where an outlet leads, as its exit tells. -/
structure Outlet.Leads (o : Outlet) (e : BranchExit) : Prop where
  line : e.line = o.decision.decisionLine
  label : ∀ discriminant cases, o.decision.construct = .switch discriminant cases →
    LabelLeads cases o.number e
  leave : ∀ head body, o.decision.construct = .loop .testLast head body → o.number = 1 →
    LeaveLeads o.later e

/-- An exit with the candidates of a label leads to what the label runs. -/
theorem labelLeads_of {cases : List (Case Node)} {i : Nat} {e : BranchExit}
    (h : e.candidates = (Way.label cases i).candidates e.line) : LabelLeads cases i e := by
  have hruns := runsFrom_statementsFrom cases i
  have hmem : ∀ l, l ∈ e.candidates
      ↔ (∃ n ∈ statementsFrom cases i, n.RunsTogether l) ∧ l ≠ e.line := by
    intro l
    rw [h]
    show l ∈ (linesTogether _).filter _ ↔ _
    rw [List.mem_filter, mem_linesTogether, decide_eq_true_eq]
  refine ⟨⟨_, hruns, hmem⟩, fun c hc hstatements l hl => ?_⟩
  rw [← hruns.eq_consequent hc hstatements]
  exact ((hmem l).1 hl).1

/-- An exit with the candidates of what is after a loop leads there. -/
theorem leaveLeads_of {later : List Node} {e : BranchExit}
    (h : e.candidates = (Way.leave (firstLine? later)).candidates e.line) : LeaveLeads later e := by
  replace h : e.candidates = (firstLine? later).toList.filter (· ≠ e.line) := h
  refine ⟨⟨_, firstRun_firstLine? later, fun l => ?_⟩, ?_, ?_⟩
  · rw [h, List.mem_filter, Option.mem_toList, decide_eq_true_eq]
  · rw [h]
    refine Nat.le_trans (List.length_filter_le _ _) ?_
    cases firstLine? later with
    | none => exact Nat.zero_le 1
    | some l => exact Nat.le_refl 1
  · rintro rfl
    rw [h]
    rfl

/-- So the exit of each outlet leads where the outlet does. -/
theorem leads_of {p : Program} {o : Outlet} {w : Way} {e : BranchExit} (hw : (o, w) ∈ p.waysOut)
    (hline : e.line = o.decision.decisionLine)
    (hcandidates : e.candidates = w.candidates o.decision.decisionLine) : o.Leads e := by
  have hnumber := Program.way_of_mem hw
  obtain ⟨⟨line, endLine, construct⟩, later, i⟩ := o
  refine ⟨hline, fun discriminant cases hswitch => ?_, fun head body hloop hone => ?_⟩
  · obtain rfl : construct = _ := hswitch
    replace hnumber : ((List.range cases.length).map (Way.label cases))[i]? = some w := hnumber
    rw [List.getElem?_map] at hnumber
    obtain ⟨j, hj, rfl⟩ := Option.map_eq_some_iff.1 hnumber
    obtain ⟨hlt, rfl⟩ := List.getElem?_eq_some_iff.1 hj
    rw [List.getElem_range, ← hline] at hcandidates
    exact labelLeads_of hcandidates
  · obtain rfl : construct = _ := hloop
    obtain rfl : i = 1 := hone
    -- The way out that follows the repeated body is the one that leaves the loop.
    obtain rfl : w = .leave (firstLine? later) := (Option.some.inj hnumber).symm
    rw [← hline] at hcandidates
    exact leaveLeads_of hcandidates

end Coverage.Script

namespace Coverage.SiteMap

open Script (Program Outlet)

/-- The exits of the map of a script are those of all its decisions, wherever they stand, in order
    of their lines.  That of a label has the lines of the first case from it on with statements;
    that which leaves a loop has the first line that runs among the members after the loop, if it
    stands in a block or in the script itself and is not the last there. -/
theorem outlets_lead (p : Program) :
    (∀ n later, (n, later) ∈ p.nodesBefore ↔ p.HoldsBefore n later)
      ∧ p.nodesBefore.map Prod.fst = p.nodes
      ∧ List.Forall₂ Outlet.Leads (sortBy (fun o => o.decision.decisionLine) p.outlets)
        (ofProgram p).exits := by
  refine ⟨fun n later => Program.mem_nodesBefore, p.map_fst_nodesBefore, ?_⟩
  -- Outlets and ways are two readings of one list, so sorting by the line keeps them paired.
  have hrows := forall₂_numberedExits (sortBy Prod.fst p.ways)
  rw [← exits_ofProgram, p.ways_eq, sortBy_map, List.forall₂_map_left_iff] at hrows
  rw [← p.map_fst_waysOut, sortBy_map, List.forall₂_map_left_iff]
  have hmem : ∀ x ∈ sortBy (fun x : Outlet × Script.Way => x.1.decision.decisionLine) p.waysOut,
      x ∈ p.waysOut := fun x hx => List.mem_mergeSort.1 hx
  exact ((List.forall₂_and_left _ _).2 ⟨hmem, hrows⟩).imp fun x e ⟨hx, hline, hcandidates⟩ =>
    Script.leads_of hx hline hcandidates

end Coverage.SiteMap
