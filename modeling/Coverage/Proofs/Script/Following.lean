/-
  Coverage.Proofs.Script.Following

  What comes after a node among the members of its sequence.

  The members of a script run one after another, and so do those of a block; a part of any other
  node has nothing after it (`Node.PartBefore`).  A tree in preorder can carry with each node the
  members after it (`preorderBefore`), and holds all of them (`Program.mem_nodesBefore`).  The
  survey meets the same nodes in the same order, and takes the line that runs after a loop from
  these members (`Program.visits_eq`).
-/

import Coverage.Proofs.Script.Preorder
import Mathlib.Data.List.Basic

namespace Coverage.Script

/-! ## Members and those after them -/

/-- A part of a node, and the members that come after it.  Only a block runs its parts one after
    another. -/
inductive Node.PartBefore : Node → Node → List Node → Prop
  | member {line endLine : Nat} {members later : List Node} {c : Node}
      (h : c :: later <:+ members) : PartBefore ⟨line, endLine, .block members⟩ c later
  | apart {n c : Node} (hblock : n.isBlock = false) (hpart : n.construct.Part c) : PartBefore n c []

/-- A node somewhere in a script, and the members that come after it. -/
inductive Program.HoldsBefore (p : Program) : Node → List Node → Prop
  | member {c : Node} {later : List Node} (h : c :: later <:+ p.body) : HoldsBefore p c later
  | part {n c : Node} {later : List Node} (hn : p.Holds n) (h : n.PartBefore c later) :
      HoldsBefore p c later

/-- The members of a sequence, each with those after it. -/
def withLater : List Node → List (Node × List Node)
  | [] => []
  | n :: rest => (n, rest) :: withLater rest

/-- A member of a sequence comes with those after it. -/
theorem mem_withLater {ns later : List Node} {c : Node} :
    (c, later) ∈ withLater ns ↔ c :: later <:+ ns := by
  induction ns with
  | nil => simp [withLater]
  | cons n rest ih =>
    rw [withLater, List.mem_cons, ih, List.suffix_cons_iff, Prod.mk.injEq, List.cons.injEq]

/-- Noting what comes later leaves the members themselves as they are. -/
theorem map_fst_withLater (ns : List Node) : (withLater ns).map Prod.fst = ns := by
  induction ns with
  | nil => rfl
  | cons n rest ih => rw [withLater, List.map_cons, ih]

/-- The parts of a node, each with the members after it. -/
def Node.partsBefore (n : Node) : List (Node × List Node) :=
  if n.isBlock then withLater n.children else n.children.map (·, [])

/-- The parts of a node are its children, whether or not it is a block. -/
theorem Node.map_fst_partsBefore (n : Node) : n.partsBefore.map Prod.fst = n.children := by
  unfold partsBefore
  split
  · exact map_fst_withLater n.children
  · rw [List.map_map]
    exact List.map_id n.children

theorem Node.mem_children_of_mem_partsBefore {n : Node} {x : Node × List Node}
    (h : x ∈ n.partsBefore) : x.1 ∈ n.children := by
  rw [← n.map_fst_partsBefore]
  exact List.mem_map_of_mem h

theorem Node.exists_mem_partsBefore {n c : Node} (h : c ∈ n.children) :
    ∃ later, (c, later) ∈ n.partsBefore := by
  rw [← n.map_fst_partsBefore] at h
  obtain ⟨⟨_, later⟩, hx, rfl⟩ := List.mem_map.1 h
  exact ⟨later, hx⟩

/-- The list of the parts and what follows them agrees with the relation. -/
theorem Node.mem_partsBefore {n c : Node} {later : List Node} :
    (c, later) ∈ n.partsBefore ↔ n.PartBefore c later := by
  unfold partsBefore
  constructor
  · intro h
    by_cases hblock : n.isBlock = true
    · rw [if_pos hblock] at h
      obtain ⟨line, endLine, construct⟩ := n
      cases construct with
      | block members => exact .member (mem_withLater.1 h)
      | _ => cases hblock
    · rw [if_neg hblock] at h
      obtain ⟨c, hc, heq⟩ := List.mem_map.1 h
      obtain ⟨rfl, rfl⟩ := Prod.mk.inj heq
      exact .apart (by simpa using hblock) (Construct.part_iff.2 hc)
  · intro h
    cases h with
    | member h => exact mem_withLater.2 h
    | apart hblock hpart =>
      rw [if_neg (by simp [hblock])]
      exact List.mem_map_of_mem (Construct.part_iff.1 hpart)

/-! ## Preorder -/

/-- A node and all nodes inside it, each before its parts and with the members after it. -/
def preorderBefore (x : Node × List Node) : List (Node × List Node) :=
  x :: x.1.partsBefore.attach.flatMap fun c =>
    have := Node.sizeOf_lt_of_mem_children (Node.mem_children_of_mem_partsBefore c.2)
    preorderBefore c.1
termination_by x.1

/-- A node comes before its parts, each with what is after it. -/
theorem preorderBefore_eq (x : Node × List Node) :
    preorderBefore x = x :: x.1.partsBefore.flatMap preorderBefore := by
  rw [preorderBefore]
  congr 1
  simp [List.flatMap]

/-- All nodes of a script, each before its parts and with the members after it. -/
def Program.nodesBefore (p : Program) : List (Node × List Node) :=
  (withLater p.body).flatMap preorderBefore

/-- What is met inside a node is the node itself, or a part of a node it reaches. -/
theorem mem_preorderBefore {n c : Node} {here later : List Node} :
    (c, later) ∈ preorderBefore (n, here)
      ↔ (c, later) = (n, here) ∨ ∃ m, n.Reaches .everything m ∧ m.PartBefore c later := by
  -- Only the node itself stands before `here`; a node inside it has the members that its own
  -- place gives it, so `here` is free in the induction.
  induction n using Node.induct generalizing here with
  | step n ih =>
    have henter : Reach.everything.Enters n := fun h => by cases h
    rw [preorderBefore_eq, List.mem_cons]
    refine or_congr_right ?_
    rw [List.mem_flatMap]
    constructor
    · rintro ⟨⟨part, after⟩, hpart, hc⟩
      have hchild := Node.mem_children_of_mem_partsBefore hpart
      rcases (ih part hchild).1 hc with heq | ⟨m, hm, hcm⟩
      · obtain ⟨rfl, rfl⟩ := Prod.mk.inj heq
        exact ⟨n, .self n, Node.mem_partsBefore.1 hpart⟩
      · exact ⟨m, .through henter (Construct.part_iff.2 hchild) hm, hcm⟩
    · rintro ⟨m, hm, hcm⟩
      rcases Node.reaches_iff.1 hm with rfl | ⟨-, part, hchild, hreach⟩
      · have hc := Node.mem_partsBefore.2 hcm
        exact ⟨(c, later), hc,
          (ih c (Node.mem_children_of_mem_partsBefore hc)).2 (.inl rfl)⟩
      · obtain ⟨after, hpart⟩ := Node.exists_mem_partsBefore hchild
        exact ⟨(part, after), hpart, (ih part hchild).2 (.inr ⟨m, hreach, hcm⟩)⟩

/-- All nodes of a script are met, each with the members after it. -/
theorem Program.mem_nodesBefore {p : Program} {n : Node} {later : List Node} :
    (n, later) ∈ p.nodesBefore ↔ p.HoldsBefore n later := by
  rw [nodesBefore, List.mem_flatMap]
  constructor
  · rintro ⟨⟨root, after⟩, hroot, hn⟩
    have hsuffix := mem_withLater.1 hroot
    -- The node is a root, or a part of a node inside one.
    rcases mem_preorderBefore.1 hn with heq | ⟨m, hm, hpart⟩
    · obtain ⟨rfl, rfl⟩ := Prod.mk.inj heq
      exact .member hsuffix
    · exact .part ⟨root, hsuffix.subset List.mem_cons_self, hm⟩ hpart
  · intro h
    cases h with
    | member h => exact ⟨(n, later), mem_withLater.2 h, mem_preorderBefore.2 (.inl rfl)⟩
    | part hm hpart =>
      obtain ⟨root, hroot, hreach⟩ := hm
      rw [← map_fst_withLater p.body] at hroot
      obtain ⟨⟨_, after⟩, hx, rfl⟩ := List.mem_map.1 hroot
      exact ⟨_, hx, mem_preorderBefore.2 (.inr ⟨_, hreach, hpart⟩)⟩

/-! ## What the survey meets -/

/-- What the survey meets where a node stands before some members: the line that runs after the
    node counts only if it is a loop that tests last. -/
def asMet (x : Node × List Node) : Node × Option Nat :=
  (x.1, if x.1.testsLast then firstLine? x.2 else none)

/-- In a sequence the survey notes the line that follows. -/
theorem map_asMet_withLater (ns : List Node) : (withLater ns).map asMet = followed true ns := by
  induction ns with
  | nil => rfl
  | cons n rest ih =>
    rw [withLater, List.map_cons, ih, followed, Bool.true_and]
    rfl

theorem map_asMet_apart (ns : List Node) :
    (ns.map fun n => asMet (n, [])) = followed false ns := by
  induction ns with
  | nil => rfl
  | cons n rest ih =>
    rw [List.map_cons, ih, followed, Bool.false_and, asMet]
    -- Among no members there is none that runs a line.
    simp [firstLine?]

/-- The survey goes over the parts of a node as it meets them. -/
theorem Node.map_asMet_partsBefore (n : Node) :
    n.partsBefore.map asMet = followed n.isBlock n.children := by
  unfold partsBefore
  split
  · rename_i hblock
    rw [hblock, map_asMet_withLater]
  · rename_i hblock
    rw [eq_false_of_ne_true hblock, ← map_asMet_apart, List.map_map]
    rfl

/-- The visits of the survey are the nodes in this order, as they are met. -/
theorem visits_asMet (x : Node × List Node) : visits (asMet x) = (preorderBefore x).map asMet := by
  obtain ⟨n, here⟩ := x
  induction n using Node.induct generalizing here with
  | step n ih =>
    rw [visits_eq, preorderBefore_eq, List.map_cons]
    -- The survey asks each node's kind whether its parts follow each other, as `partsBefore` does.
    congr 1
    show (followed n.isBlock n.children).flatMap visits = _
    rw [← n.map_asMet_partsBefore, List.flatMap_map, List.map_flatMap]
    refine List.flatMap_congr fun x hx => ?_
    exact ih x.1 (Node.mem_children_of_mem_partsBefore hx) x.2

/-- The survey meets the nodes of a script in preorder, each with what the members after it
    run. -/
theorem Program.visits_eq (p : Program) : p.visits = p.nodesBefore.map asMet := by
  rw [visits, nodesBefore, ← map_asMet_withLater, List.flatMap_map, List.map_flatMap]
  exact List.flatMap_congr fun x _ => visits_asMet x

/-- The nodes of a script with what follows them are its nodes. -/
theorem Program.map_fst_nodesBefore (p : Program) : p.nodesBefore.map Prod.fst = p.nodes := by
  rw [← map_fst_visits, visits_eq, List.map_map]
  rfl

end Coverage.Script
