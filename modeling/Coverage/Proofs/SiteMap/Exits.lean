/-
  Coverage.Proofs.SiteMap.Exits

  The exits of a site map are the ways out of the decisions of the tree.

  `Node.ways` lists the ways out of one decision, and the survey finds these and no others
  (`exits_eq`, case by case over the constructs).  The bag it counts lines in gives each way the
  number of those before it on its line (`numberExits_ways`).  The map is sorted by line and
  number, the ways by line alone; both keep what stands on each line in its order, so they are
  one list (`exits_ofProgram`).
-/

import Coverage.Proofs.Ranking
import Coverage.Proofs.Script.Preorder
import Coverage.Proofs.SiteMap.Regular

namespace Coverage.Script

/-! ## Ways out of a decision -/

/-- A way out of a decision. -/
inductive Way where
  /-- A branch or the body of a loop is run. -/
  | into (body : Node)
  /-- A switch is entered at a label. -/
  | label (cases : List (Case Node)) (i : Nat)
  /-- A loop that tests last is left, with the line that runs next. -/
  | leave (after : Option Nat)

/-- The line on which a node decides: where it begins, but where its test begins if it is a
    loop that tests last, and where it ends if that has no test. -/
def Node.decisionLine (n : Node) : Nat :=
  match n.construct with
  | .loop .testLast (test :: _) _ => test.line
  | .loop .testLast [] _ => n.endLine
  | _ => n.line

/-- The ways out of a node, where `after` is the line that runs next if it is a loop that is
    left. -/
def Node.ways (n : Node) (after : Option Nat) : List Way :=
  match n.construct with
  | .conditional _ consequent none => [.into consequent]
  | .conditional _ consequent (some alternate) => [.into consequent, .into alternate]
  | .switch _ cases => (List.range cases.length).map (.label cases)
  | .loop .testLast _ body => [.into body, .leave after]
  | .loop _ _ body => [.into body]
  | _ => []

/-- The statements a label leads to: those of the first case from it on that has any. -/
def statementsFrom (cases : List (Case Node)) (i : Nat) : List Node :=
  (((cases.drop i).find? fun c => !c.consequent.isEmpty).map Case.consequent).getD []

/-- The lines that tell that a way out of a decision was taken. -/
def Way.candidates (line : Nat) : Way → List Nat
  | .into body => Script.candidates line [body]
  | .label cases i => Script.candidates line (statementsFrom cases i)
  | .leave after => after.toList.filter (· ≠ line)

/-- The ways out of all decisions of a script, each with the line of its decision, as the
    decisions are met. -/
def Program.ways (p : Program) : List (Nat × Way) :=
  p.visits.flatMap fun v => (v.1.ways v.2).map (v.1.decisionLine, ·)

/-! ## Exits of a node -/

/-- The first label runs the statements from the first case on. -/
theorem head_switchCandidates (line : Nat) (cases : List (Case Node)) :
    (switchCandidates line cases).head?.getD [] = candidates line (statementsFrom cases 0) := by
  induction cases with
  | nil => rfl
  | cons c rest ih =>
    rw [switchCandidates, statementsFrom, List.drop_zero, List.find?_cons]
    by_cases hempty : c.consequent.isEmpty = true
    · simp only [hempty, if_true, Bool.not_true]
      exact ih
    · simp [hempty]

/-- Each label runs the statements from its own case on. -/
theorem switchCandidates_eq (line : Nat) (cases : List (Case Node)) :
    switchCandidates line cases
      = (List.range cases.length).map fun i => candidates line (statementsFrom cases i) := by
  induction cases with
  | nil => rfl
  | cons c rest ih =>
    -- The first label is the head of the list; the others are labels of the cases after it.
    have hfirst := head_switchCandidates line (c :: rest)
    have hcons : switchCandidates line (c :: rest)
        = (switchCandidates line (c :: rest)).head?.getD [] :: switchCandidates line rest := by
      rw [switchCandidates]
      split <;> rfl
    rw [hcons, hfirst, ih, List.length_cons, List.range_succ_eq_map, List.map_cons, List.map_map]
    rfl

/-- The exits of a node are its ways, each with its candidates. -/
theorem Node.exits_eq (n : Node) (after : Option Nat) : n.exits after
    = (n.ways after).map fun w => (n.decisionLine, w.candidates n.decisionLine) := by
  obtain ⟨line, endLine, construct⟩ := n
  cases construct with
  | conditional test consequent alternate => cases alternate <;> rfl
  | switch discriminant cases =>
    have hlabels := congrArg (List.map fun ls => (line, ls)) (switchCandidates_eq line cases)
    rw [List.map_map] at hlabels
    refine hlabels.trans ?_
    rw [ways, List.map_map]
    rfl
  | loop form head body =>
    -- The decision line of a loop that tests last depends on whether there is a test.
    cases form <;> cases head <;> rfl
  | _ => rfl

/-- So it is for all nodes of a script. -/
theorem Program.flatMap_exits (p : Program) : (p.visits.flatMap fun v => v.1.exits v.2)
    = p.ways.map fun w => (w.1, w.2.candidates w.1) := by
  simp only [ways, Node.exits_eq, List.map_flatMap, List.map_map]
  rfl

/-! ## Numbers -/

/-- The exits of some ways, numbered on each line. -/
def numberedExits (ws : List (Nat × Way)) : List BranchExit :=
  (ranked Prod.fst ws).map fun x => ⟨x.1.1, x.2, x.1.2.candidates x.1.1⟩

/-- Numbering by a table of what was met is counting what is before on the same line. -/
theorem numberExits_ways (ws : List (Nat × Way)) :
    numberExits .empty (ws.map fun w => (w.1, w.2.candidates w.1)) = numberedExits ws := by
  let exit (w : Nat × Way) (i : Nat) : BranchExit := ⟨w.1, i, w.2.candidates w.1⟩
  show _ = (ranked Prod.fst ws).map fun x => exit x.1 x.2
  rw [← numberWith_eq exit]
  generalize Bag.empty = met
  induction ws generalizing met with
  | nil => rfl
  | cons w rest ih =>
    rw [List.map_cons, numberExits, numberWith, ih]

theorem map_line_numberedExits (ws : List (Nat × Way)) :
    (numberedExits ws).map BranchExit.line = ws.map Prod.fst := by
  rw [numberedExits, List.map_map]
  conv_rhs => rw [← map_fst_ranked Prod.fst ws, List.map_map]
  rfl

theorem Way.pairwise_candidates (line : Nat) (w : Way) :
    (w.candidates line).Pairwise (· < ·) := by
  cases w with
  | into body => exact (LineSet.pairwise_ofList _).filter _
  | label cases i => exact (LineSet.pairwise_ofList _).filter _
  | leave after =>
    apply List.Pairwise.filter
    cases after with
    | none => exact List.Pairwise.nil
    | some l => exact List.pairwise_singleton _ l

end Coverage.Script

namespace Coverage.SiteMap

open Script (Program Way numberedExits)

/-! ## Order -/

/-- The exits of a line are numbered among themselves. -/
theorem exitsOn_numberedExits (ws : List (Nat × Way)) (line : Nat) :
    exitsOn line (numberedExits ws) = numberedExits (ws.filter fun w => w.1 = line) := by
  rw [exitsOn, numberedExits, List.filter_map, numberedExits, ← filter_ranked]
  rfl

theorem pairwise_numberedExits (ws : List (Nat × Way)) :
    (numberedExits ws).Pairwise fun a b => a.line = b.line → a.index < b.index :=
  List.pairwise_map.2 (pairwise_ranked Prod.fst ws)

/-- Sorting by line and number keeps the exits of a line in the order in which they were
    numbered. -/
theorem exitsOn_sorted (ws : List (Nat × Way)) (line : Nat) :
    exitsOn line ((numberedExits ws).mergeSort exitLE) = exitsOn line (numberedExits ws) := by
  apply filter_mergeSort exitLE_trans exitLE_total
  refine ((pairwise_numberedExits ws).filter _).imp_of_mem fun {a b} ha hb hindex => ?_
  have hline : a.line = b.line :=
    (of_decide_eq_true (List.mem_filter.1 ha).2).trans
      (of_decide_eq_true (List.mem_filter.1 hb).2).symm
  exact exitLE_iff.2 (.inr ⟨hline, Nat.le_of_lt (hindex hline)⟩)

/-- Sorting numbered exits by line and number comes to the same as sorting the ways by line and
    then numbering. -/
theorem sorted_numberedExits (ws : List (Nat × Way)) :
    (numberedExits ws).mergeSort exitLE = numberedExits (sortBy Prod.fst ws) := by
  apply eq_of_filter_eq BranchExit.line
  · refine (pairwise_sorted_exits _).imp fun {a b} hab => ?_
    have := exitLE_iff.1 hab
    omega
  · rw [← List.pairwise_map, Script.map_line_numberedExits, List.pairwise_map]
    exact pairwise_sortBy Prod.fst ws
  · intro line
    show exitsOn line _ = exitsOn line _
    rw [exitsOn_sorted, exitsOn_numberedExits, exitsOn_numberedExits, filter_sortBy]

/-- The exits of a map are the ways of its script, sorted by line and numbered on each. -/
theorem exits_ofProgram (p : Program) :
    (ofProgram p).exits = numberedExits (sortBy Prod.fst p.ways) := by
  show ((Script.numberExits .empty _).mergeSort exitLE).map BranchExit.ordered = _
  rw [p.flatMap_exits, Script.numberExits_ways, ← sorted_numberedExits]
  -- The candidates of a way are in order as they are found.
  refine (List.map_congr_left fun e he => ?_).trans (List.map_id _)
  obtain ⟨x, -, rfl⟩ := List.mem_map.1 (List.mem_mergeSort.1 he)
  rw [BranchExit.ordered, LineSet.ofList_of_pairwise (x.1.2.pairwise_candidates x.1.1)]
  rfl

/-- The site map of a script has one exit for each way out of each decision anywhere in the
    tree.  They stand in order of their lines; those of one line are in preorder of the decisions,
    as each decision has them, and are numbered from zero in that order. -/
theorem exits_enumerated (p : Program) :
    p.visits.map Prod.fst = p.nodes
      ∧ (ofProgram p).exits = numberedExits (sortBy Prod.fst p.ways)
      ∧ ∀ line, exitsOn line (ofProgram p).exits
        = numberedExits (p.ways.filter fun w => w.1 = line) := by
  refine ⟨p.map_fst_visits, exits_ofProgram p, fun line => ?_⟩
  rw [exits_ofProgram, exitsOn_numberedExits, filter_sortBy]

end Coverage.SiteMap
