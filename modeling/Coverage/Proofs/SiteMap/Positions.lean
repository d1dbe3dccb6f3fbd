/-
  Coverage.Proofs.SiteMap.Positions

  Every node of a script stands on a line.

  A value gives a line if it has one that is positive and fits 32 bits, whatever else is in its
  location (`startLine?_eq_some`).  A node made of it stands there, and otherwise where the node or
  case around it does (`positioned_node`); so from the root downwards no node comes to stand on
  line 0 (`Program.Origin.pos`).  All that a site map mentions is read off the lines of nodes
  (`pos_of_mem_mentioned`).
-/

import Coverage.Proofs.Script.Origins
import Coverage.Proofs.SiteMap.InReach

namespace Coverage.Script

open Json (Value)
open Text.Decimal (bound32)

/-! ## Lines of values -/

/-- The location of a value has a line at an edge: a positive integer of 32 bits. -/
def GivesLine (v : Value) (edge : String) (n : Nat) : Prop :=
  ∃ loc point, v.get? "loc" = some loc ∧ loc.get? edge = some point
    ∧ point.get? "line" = some (.int n) ∧ 0 < n ∧ n < bound32

/-- The line a value stands on: the one that it gives, or the one around it if it gives none. -/
inductive StandsOn (outer : Nat) (v : Value) : Nat → Prop
  | own {n : Nat} (h : GivesLine v "start" n) : StandsOn outer v n
  | inherited (h : ∀ n, ¬GivesLine v "start" n) : StandsOn outer v outer

/-- The line a value that stands on `line` ends on: the one that it gives, if that is not before
    `line`, and else `line`. -/
inductive ClosesOn (line : Nat) (v : Value) : Nat → Prop
  | own {n : Nat} (h : GivesLine v "end" n) : ClosesOn line v (max n line)
  | inherited (h : ∀ n, ¬GivesLine v "end" n) : ClosesOn line v line

/-- A node that was made of a value, inside what stands on `outer`, has its lines from that value,
    and so have its cases. In the place of a missing part is an empty block on `outer`. -/
inductive Positioned (outer : Nat) : Option Value → Node → Prop
  | missing : Positioned outer none ⟨outer, outer, .block []⟩
  | reflected {v : Value} {n : Node} (hline : StandsOn outer v n.line)
      (hend : ClosesOn n.line v n.endLine)
      (hcases : ∀ discriminant cases, n.construct = .switch discriminant cases →
        List.Forall₂ (fun label k => StandsOn n.line label k.line) (labels v) cases) :
      Positioned outer (some v) n

/-- The node and all of its cases stand on a line. -/
structure Node.OnLines (n : Node) : Prop where
  line : 0 < n.line
  ordered : n.line ≤ n.endLine
  cases : ∀ discriminant cases, n.construct = .switch discriminant cases → ∀ k ∈ cases, 0 < k.line

/-- A number below a bound is an integer that is not negative and below it. -/
theorem natBelow?_eq_some {bound n : Nat} {v : Value} :
    v.natBelow? bound = some n ↔ v = .int n ∧ n < bound := by
  unfold Value.natBelow?
  split
  · rename_i m
    rw [Option.ite_none_right_eq_some, Option.some.injEq]
    constructor
    · rintro ⟨hlt, rfl⟩
      exact ⟨rfl, hlt⟩
    · rintro ⟨heq, hlt⟩
      cases heq
      exact ⟨hlt, rfl⟩
  · rename_i hother
    constructor
    · intro h
      cases h
    · rintro ⟨rfl, -⟩
      exact absurd rfl (hother n)

/-- A position is read where all three keys lead to a number that fits. -/
theorem position?_eq_some {v : Value} {edge field : String} {n : Nat} :
    position? v edge field = some n ↔ ∃ loc point, v.get? "loc" = some loc
      ∧ loc.get? edge = some point ∧ point.get? field = some (.int n) ∧ n < bound32 := by
  simp only [position?, bind, Option.bind_eq_some_iff, natBelow?_eq_some]
  constructor
  · rintro ⟨loc, hloc, point, hpoint, _, hfield, rfl, hlt⟩
    exact ⟨loc, point, hloc, hpoint, hfield, hlt⟩
  · rintro ⟨loc, point, hloc, hpoint, hfield, hlt⟩
    exact ⟨loc, hloc, point, hpoint, _, hfield, rfl, hlt⟩

/-- A line is read where the value gives one. -/
theorem filter_position?_eq_some {v : Value} {edge : String} {n : Nat} :
    (position? v edge "line").filter (0 < ·) = some n ↔ GivesLine v edge n := by
  rw [Option.filter_eq_some_iff, position?_eq_some]
  constructor
  · rintro ⟨⟨loc, point, hloc, hpoint, hline, hlt⟩, hpos⟩
    exact ⟨loc, point, hloc, hpoint, hline, of_decide_eq_true hpos, hlt⟩
  · rintro ⟨loc, point, hloc, hpoint, hline, hpos, hlt⟩
    exact ⟨⟨loc, point, hloc, hpoint, hline, hlt⟩, decide_eq_true hpos⟩

/-- The first line is read where the value gives it. -/
theorem startLine?_eq_some {v : Value} {n : Nat} :
    startLine? v = some n ↔ GivesLine v "start" n :=
  filter_position?_eq_some

theorem endLine?_eq_some {v : Value} {n : Nat} : endLine? v = some n ↔ GivesLine v "end" n :=
  filter_position?_eq_some

/-- A value stands on its own line, or else on that of what is around it. -/
theorem standsOn_iff {outer line : Nat} {v : Value} :
    StandsOn outer v line ↔ line = (startLine? v).getD outer := by
  constructor
  · intro h
    cases h with
    | own h => rw [startLine?_eq_some.2 h, Option.getD_some]
    | inherited h =>
      cases hline : startLine? v with
      | none => rfl
      | some n => exact absurd (startLine?_eq_some.1 hline) (h n)
  · rintro rfl
    cases hline : startLine? v with
    | none =>
      refine .inherited fun n hn => ?_
      rw [startLine?_eq_some.2 hn] at hline
      cases hline
    | some n => exact .own (startLine?_eq_some.1 hline)

/-- A node ends where its value does, or on its own line if that is later. -/
theorem closesOn_endLine? (line : Nat) (v : Value) :
    ClosesOn line v (max ((endLine? v).getD line) line) := by
  cases hline : endLine? v with
  | none =>
    rw [Option.getD_none, Nat.max_self]
    refine .inherited fun n hn => ?_
    rw [endLine?_eq_some.2 hn] at hline
    cases hline
  | some n => exact .own (endLine?_eq_some.1 hline)

/-- What is around a line is on a line, so what is inside it is too. -/
theorem StandsOn.pos {outer line : Nat} {v : Value} (h : StandsOn outer v line)
    (houter : 0 < outer) : 0 < line := by
  cases h with
  | own h =>
    obtain ⟨_, _, _, _, _, hpos, _⟩ := h
    exact hpos
  | inherited => exact houter

/-- A node does not end before it begins. -/
theorem ClosesOn.le {line endLine : Nat} {v : Value} (h : ClosesOn line v endLine) :
    line ≤ endLine := by
  cases h with
  | own => exact Nat.le_max_right _ _
  | inherited => exact Nat.le_refl _

/-! ## Lines of nodes -/

/-- Each case of a switch stands on its own line or on that of the switch. -/
theorem standsOn_cases {line : Nat} {v : Value} {discriminant : Node} {cases : List (Case Node)}
    (h : (Seed.constructOf line v).map Seed.node = .switch discriminant cases) :
    List.Forall₂ (fun label k => StandsOn line label k.line) (labels v) cases := by
  unfold Seed.constructOf at h
  split at h
  -- The third shape is the switch.
  case h_3 =>
    cases h
    rw [Seed.switchCases, List.map_map, List.forall₂_map_right_iff]
    exact List.forall₂_same.2 fun label _ => standsOn_iff.2 rfl
  all_goals cases h

/-- The node of a value has the lines that the value gives it. -/
theorem positioned_node (outer : Nat) (w : Option Value) :
    Positioned outer w (Seed.node ⟨outer, w⟩) := by
  cases w with
  | none =>
    rw [node_missing]
    exact .missing
  | some v =>
    refine .reflected ?_ ?_ ?_
    · exact standsOn_iff.2 (line_nodeOf outer v)
    · have hend := endLine_nodeOf outer v
      exact hend ▸ closesOn_endLine? (nodeOf outer v).line v
    · intro discriminant cases hswitch
      exact standsOn_cases ((construct_nodeOf outer v).symm.trans hswitch)

/-- Cases inside a line stand on lines. -/
theorem pos_of_standsOn {line : Nat} {vs : List Value} {cases : List (Case Node)}
    (hline : 0 < line) (h : List.Forall₂ (fun v k => StandsOn line v k.line) vs cases) :
    ∀ k ∈ cases, 0 < k.line := by
  induction h with
  | nil => exact fun _ hk => absurd hk List.not_mem_nil
  | cons hfirst _ ih => exact List.forall_mem_cons.2 ⟨hfirst.pos hline, ih⟩

/-- A node is on lines if what is around it is on one. -/
theorem Positioned.onLines {outer : Nat} {w : Option Value} {n : Node}
    (h : Positioned outer w n) (houter : 0 < outer) : n.OnLines := by
  cases h with
  | missing => exact ⟨houter, Nat.le_refl outer, fun _ _ h => by cases h⟩
  | @reflected v n hline hend hcases =>
    have hpos : 0 < n.line := hline.pos houter
    refine ⟨hpos, hend.le, ?_⟩
    intro discriminant cases hswitch
    exact pos_of_standsOn hpos (hcases discriminant cases hswitch)

/-- What is around a part is the node or one of its cases. -/
theorem Found.pos {v : Value} {n c : Node} {inner : Nat} {w : Option Value}
    (h : Found v n.line n.construct inner w c) (hn : n.OnLines) : 0 < inner := by
  obtain ⟨line, endLine, construct⟩ := n
  cases h with
  | caseTest hk _ => exact hn.cases _ _ rfl _ (List.of_mem_zip hk).2
  | caseStatement hk _ => exact hn.cases _ _ rfl _ (List.of_mem_zip hk).2
  | _ => exact hn.line

variable {root : Value} {filename : String} {p : Program}

/-- A node with an origin has the lines that its value gives it. -/
theorem Program.Origin.positioned (h : Program.ofValue root filename = .ok p) {outer : Nat}
    {w : Option Value} {n : Node} (hn : p.Origin root (rootLine root) outer w n) :
    Positioned outer w n := by
  obtain rfl := hn.eq_node h
  exact positioned_node outer w

/-- The root of a script stands on the line that it gives, or on line 1. -/
theorem standsOn_rootLine (root : Value) : StandsOn 1 root (rootLine root) :=
  standsOn_iff.2 rfl

/-- What is around a node stands on a line, whatever way leads there from the root. -/
theorem Program.Origin.pos (h : Program.ofValue root filename = .ok p) {outer : Nat}
    {w : Option Value} {n : Node} (hn : p.Origin root (rootLine root) outer w n) : 0 < outer := by
  -- By induction on the way: what is around a part is the node or one of its cases, and the
  -- node is on a line because what is around it is.
  induction hn with
  | top => exact (standsOn_rootLine root).pos Nat.one_pos
  | part hm hfound ih => exact hfound.pos ((hm.positioned h).onLines ih)

/-- All nodes of a script stand on lines. -/
theorem onLines_of_holds (h : Program.ofValue root filename = .ok p) {n : Node}
    (hn : p.Holds n) : n.OnLines := by
  obtain ⟨outer, w, horigin⟩ := exists_origin h hn
  exact (horigin.positioned h).onLines (horigin.pos h)

/-! ## Lines that run -/

variable (hlines : ∀ n, p.Holds n → n.OnLines)

include hlines

/-- What a node executes is on a line. -/
theorem Node.Executes.pos {n : Node} {l : Nat} (h : n.Executes l) (hn : p.Holds n) : 0 < l := by
  have hown := hlines n hn
  cases h with
  | @lastTest line endLine head body =>
    -- Without a test the loop decides where it ends.
    cases head with
    | nil => exact Nat.lt_of_lt_of_le hown.line hown.ordered
    | cons test rest => exact (hlines test (hn.part (.head List.mem_cons_self))).line
  | _ => exact hown.line

/-- So is the body of a concise function. -/
theorem Node.Concise.pos {n : Node} {l : Nat} (h : n.Concise l) (hn : p.Holds n) : 0 < l := by
  cases h with
  | body => exact (hlines _ (hn.part .functionBody)).line

end Coverage.Script

namespace Coverage.SiteMap

open Json (Value)
open Script (Program Node Definition Seed StandsOn Positioned nodeOf line_nodeOf construct_nodeOf
  mem_zip_ofValues found_of_part standsOn_iff)

variable {p : Program} (hlines : ∀ n, p.Holds n → n.OnLines)

include hlines

/-- All lines of the map are lines of nodes. -/
theorem pos_of_mem_lines {l : Nat} (hl : l ∈ (ofProgram p).lines) : 0 < l := by
  obtain ⟨n, hn, hexecutes | hconcise⟩ := mem_lines_ofProgram_iff.1 hl
  · exact hexecutes.pos hlines hn
  · exact hconcise.pos hlines hn

/-- A function that ends before it begins has its end where it begins. -/
theorem pos_of_mem_functions {f : FunctionSpan} (hf : f ∈ (ofProgram p).functions) :
    0 < f.line ∧ 0 < f.endLine := by
  obtain ⟨⟨d, index⟩, hd, rfl⟩ := List.mem_map.1 ((perm_functions p).mem_iff.1 hf)
  obtain ⟨n, hn, hfunction⟩ := List.mem_filterMap.1 (mem_of_mem_ranked hd)
  obtain ⟨form, name, params, body, -, rfl⟩ := Node.function?_eq_some.1 hfunction
  have hline : 0 < n.line := (hlines n (Program.mem_nodes.1 hn)).line
  have hend : n.line ≤ max n.endLine n.line := Nat.le_max_right _ _
  exact ⟨hline, Nat.lt_of_lt_of_le hline hend⟩

/-- If all nodes stand on lines, so does all that the map of their script mentions. -/
theorem pos_of_mem_mentioned {l : Nat} (hl : l ∈ (ofProgram p).mentioned) : 0 < l := by
  rw [mentioned, List.append_assoc] at hl
  rcases List.mem_append.1 hl with hline | hother
  · exact pos_of_mem_lines hlines hline
  · rcases List.mem_append.1 hother with hexit | hfunction
    · -- A decision and its candidates are lines of the map.
      obtain ⟨e, he, hle⟩ := List.mem_flatMap.1 hexit
      have hclosed := exits_ofProgram_closed he
      rcases List.mem_cons.1 hle with rfl | hcandidate
      · exact pos_of_mem_lines hlines hclosed.decision
      · exact pos_of_mem_lines hlines (hclosed.inside l hcandidate)
    · obtain ⟨f, hf, hlf⟩ := List.mem_flatMap.1 hfunction
      rcases List.mem_cons.1 hlf with rfl | hlater
      · exact (pos_of_mem_functions hlines hf).1
      · rcases List.mem_cons.1 hlater with rfl | hbody
        · exact (pos_of_mem_functions hlines hf).2
        · exact pos_of_mem_lines hlines (bodyLine_ofProgram_closed hf (Option.mem_toList.1 hbody))

omit hlines

/-- A script that is read has its root on the line that this gives, or on line 1.  Its nodes are
    those that were made of the values below the root.  Each of them, and each of their cases,
    stands on the line that its own value gives, or else on that of the node or case around it;
    it ends on the line that its value gives, if that is not before its own.  So nothing in the
    script, and nothing that its site map mentions, is on line 0. -/
theorem positions_ofValue {root : Value} {filename : String} {p : Program}
    (h : Program.ofValue root filename = .ok p) :
    ∃ top, StandsOn 1 root top
      ∧ (∀ n, p.Holds n ↔ ∃ outer w, p.Origin root top outer w n)
      ∧ (∀ outer w n, p.Origin root top outer w n → Positioned outer w n)
      ∧ (∀ n, p.Holds n → n.OnLines)
      ∧ ∀ l ∈ (ofProgram p).mentioned, 0 < l := by
  have hlines : ∀ n, p.Holds n → n.OnLines := fun n hn => Script.onLines_of_holds h hn
  refine ⟨Script.rootLine root, Script.standsOn_rootLine root, fun n => ?_, ?_, hlines, ?_⟩
  · constructor
    · exact Script.exists_origin h
    · rintro ⟨outer, w, horigin⟩
      exact horigin.holds
  · exact fun outer w n horigin => horigin.positioned h
  · exact fun l hl => pos_of_mem_mentioned hlines hl

/-- A location that begins on a line. -/
def onLine (n : Int) : Value :=
  .object [("start", .object [("line", .int n)])]

/-- A statement on a line that does not fit 32 bits. -/
def leaveStatement : Value :=
  .object [("loc", onLine 4294967296), ("type", .text "BreakStatement")]

/-- A case on line 4 with this statement. -/
def fourthLine : Value :=
  .object [("consequent", .array [leaveStatement]), ("loc", onLine 4)]

/-- A switch on line 0 with this case. -/
def choice : Value :=
  .object [("cases", .array [fourthLine]), ("loc", onLine 0), ("type", .text "SwitchStatement")]

/-- A script that has no location, with this switch. -/
def misplaced : Value :=
  .object [("body", .array [choice]), ("type", .text "Program")]

theorem positions_ofValue_misplaced :
    ∃ p, Program.ofValue misplaced "a.js" = .ok p
      ∧ (∃ n, p.Origin misplaced 1 4 (some leaveStatement) n ∧ n.line = 4)
      ∧ ∀ l ∈ (ofProgram p).mentioned, 0 < l := by
  let p : Program := ⟨(Seed.ofValues 1 [choice]).map Seed.node⟩
  have hp : Program.ofValue misplaced "a.js" = .ok p := rfl
  have hchoice : p.Origin misplaced 1 1 (some choice) (nodeOf 1 choice) :=
    .top (mem_zip_ofValues.2 ⟨List.mem_singleton_self _, rfl⟩)
  -- The line of the statement does not fit, so it takes that of its case.
  have hdue : (Seed.constructOf 1 choice).Part ⟨4, some leaveStatement⟩ :=
    .caseStatement (c := Seed.switchCase 1 fourthLine) (List.mem_singleton_self _)
      (List.mem_singleton_self _)
  have hleave : p.Origin misplaced 1 4 (some leaveStatement) (nodeOf 4 leaveStatement) := by
    refine hchoice.part ?_
    rw [construct_nodeOf, show (nodeOf 1 choice).line = 1 from line_nodeOf 1 choice]
    exact found_of_part hdue
  obtain ⟨top, htop, -, hpositioned, -, hmentioned⟩ := positions_ofValue hp
  obtain rfl : top = 1 := standsOn_iff.1 htop
  cases hpositioned _ _ _ hleave with
  | reflected hline => exact ⟨p, hp, ⟨_, hleave, standsOn_iff.1 hline⟩, hmentioned⟩

end Coverage.SiteMap
