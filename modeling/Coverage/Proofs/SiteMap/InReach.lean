/-
  Coverage.Proofs.SiteMap.InReach

  The lines of a site map are those of the nodes in reach.

  A node contributes the lines it executes by itself, and a function with a concise body the line
  of that body (`mem_ownLines`).  By induction over the tree, the lines that a walk collects are
  what the nodes it reaches contribute, as long as they are entered (`mem_lines`); so a walk
  that leaves functions out collects only what is executed (`mem_linesTogether`).  Candidates and
  body lines are read off that.
-/

import Coverage.Proofs.SiteMap.Closed
import Coverage.Proofs.SiteMap.Exits
import Coverage.Proofs.SiteMap.Functions
import Mathlib.Data.List.Forall2

namespace Coverage.Script

/-! ## Lines of one node -/

/-- A line that runs when a node does, on account of the node itself. -/
inductive Node.Executes : Node → Nat → Prop
  | conditional {line endLine : Nat} {test consequent : Node} {alternate : Option Node} :
      Executes ⟨line, endLine, .conditional test consequent alternate⟩ line
  | switch {line endLine : Nat} {discriminant : Node} {cases : List (Case Node)} :
      Executes ⟨line, endLine, .switch discriminant cases⟩ line
  | loop {line endLine : Nat} {form : LoopForm} {head : List Node} {body : Node} :
      Executes ⟨line, endLine, .loop form head body⟩ line
  /-- A loop that tests last also runs where it decides. -/
  | lastTest {line endLine : Nat} {head : List Node} {body : Node} :
      Executes ⟨line, endLine, .loop .testLast head body⟩
        (decisionLine ⟨line, endLine, .loop .testLast head body⟩)
  | statement {line endLine : Nat} {children : List Node} :
      Executes ⟨line, endLine, .statement children⟩ line

/-- A function has a concise body on a line. -/
inductive Node.Concise : Node → Nat → Prop
  | body {line endLine : Nat} {form : FunctionForm} {name : Option String} {params : List Node}
      {body : Node} (h : body.isBlock = false) :
      Concise ⟨line, endLine, .function form name params body⟩ body.line

/-- What executes a line of its own is no function. -/
theorem Node.Executes.isFunction {n : Node} {l : Nat} (h : n.Executes l) :
    n.isFunction = false := by
  cases h <;> rfl

/-- A concise body is that of a function. -/
theorem Node.Concise.isFunction {n : Node} {l : Nat} (h : n.Concise l) : n.isFunction = true := by
  cases h
  rfl

/-- The lines of a node by itself are those it executes, and that of its concise body. -/
theorem Node.mem_ownLines {n : Node} {l : Nat} :
    l ∈ n.ownLines ↔ n.Executes l ∨ n.Concise l := by
  constructor
  · intro h
    obtain ⟨line, endLine, construct⟩ := n
    cases construct with
    | function form name params body =>
      replace h : l ∈ if body.isBlock then [] else [body.line] := h
      split at h
      · exact absurd h List.not_mem_nil
      · rename_i hbody
        rw [List.mem_singleton.1 h]
        exact .inr (.body (by simpa using hbody))
    | conditional test consequent alternate => exact List.mem_singleton.1 h ▸ .inl .conditional
    | switch discriminant cases => exact List.mem_singleton.1 h ▸ .inl .switch
    | loop form head body =>
      cases form with
      | testLast =>
        -- Two lines: where the loop begins, and where it decides.
        rcases List.mem_cons.1 h with rfl | htest
        · exact .inl .loop
        · rw [List.mem_singleton.1 htest]
          left
          cases head <;> exact .lastTest
      | _ => exact List.mem_singleton.1 h ▸ .inl .loop
    | block children => exact absurd h List.not_mem_nil
    | statement children => exact List.mem_singleton.1 h ▸ .inl .statement
    | expression children => exact absurd h List.not_mem_nil
  · rintro (h | h)
    · cases h with
      | @loop line endLine form head body => cases form <;> exact List.mem_cons_self
      | @lastTest line endLine head body =>
        apply List.mem_cons_of_mem
        cases head <;> exact List.mem_singleton_self _
      | _ => exact List.mem_singleton_self _
    · cases h with
      | @body line endLine form name params body hbody =>
        show body.line ∈ if body.isBlock then [] else [body.line]
        rw [if_neg (by simp [hbody])]
        exact List.mem_singleton_self _

/-! ## Lines in reach -/

/-- A walk collects the lines of all nodes that it reaches and enters. -/
theorem Node.mem_lines {reach : Reach} {n : Node} {l : Nat} :
    l ∈ n.lines reach ↔ ∃ m, n.Reaches reach m ∧ reach.Enters m ∧ l ∈ m.ownLines := by
  induction n using Node.induct with
  | step n ih =>
    by_cases henter : reach.Enters n
    · have hwalk : ¬(n.isFunction && reach == .sameCall) = true := by
        intro hout
        obtain ⟨hfunction, hreach⟩ := (Bool.and_eq_true _ _).mp hout
        rw [henter (by simpa using hreach)] at hfunction
        cases hfunction
      -- A node that is entered has its own lines, and those of its children.
      rw [lines_eq, if_neg hwalk, List.mem_append, List.mem_flatMap]
      constructor
      · rintro (hown | ⟨c, hc, hl⟩)
        · exact ⟨n, .self n, henter, hown⟩
        · obtain ⟨m, hm, hrest⟩ := (ih c hc).1 hl
          exact ⟨m, reaches_iff.2 (.inr ⟨henter, c, hc, hm⟩), hrest⟩
      · rintro ⟨m, hm, hrest⟩
        rcases reaches_iff.1 hm with rfl | ⟨-, c, hc, hcm⟩
        · exact .inl hrest.2
        · exact .inr ⟨c, hc, (ih c hc).2 ⟨m, hcm, hrest⟩⟩
    · -- A function that is left out is all that is reached from it.
      have hwalk : (n.isFunction && reach == .sameCall) = true := by
        simpa [Reach.Enters, and_comm] using henter
      rw [lines_eq, if_pos hwalk]
      constructor
      · intro h
        exact absurd h List.not_mem_nil
      · rintro ⟨m, hm, hentered, -⟩
        rcases reaches_iff.1 hm with rfl | ⟨hentered, -⟩
        · exact absurd hentered henter
        · exact absurd hentered henter

/-- Of everything inside a node all lines count. -/
theorem Node.mem_lines_whole {n : Node} {l : Nat} : l ∈ n.lines .everything
    ↔ ∃ m, n.Reaches .everything m ∧ (m.Executes l ∨ m.Concise l) := by
  rw [mem_lines]
  refine exists_congr fun m => and_congr_right fun _ => ?_
  have henter : Reach.everything.Enters m := fun h => by cases h
  rw [and_iff_right henter, mem_ownLines]

/-- A line that some node executes which is reached without entering a function. -/
def Node.RunsTogether (n : Node) (l : Nat) : Prop :=
  ∃ m, n.Reaches .sameCall m ∧ m.Executes l

/-- In one call those of functions inside it do not. -/
theorem Node.mem_lines_together {n : Node} {l : Nat} :
    l ∈ n.lines .sameCall ↔ n.RunsTogether l := by
  rw [mem_lines]
  refine exists_congr fun m => and_congr_right fun _ => ?_
  rw [mem_ownLines]
  constructor
  · rintro ⟨henter, hexecutes | hconcise⟩
    · exact hexecutes
    · exact absurd ((henter rfl).symm.trans hconcise.isFunction) Bool.false_ne_true
  · intro h
    exact ⟨fun _ => h.isFunction, .inl h⟩

/-- What runs in one call is what one of the nodes runs. -/
theorem mem_linesTogether {ns : List Node} {l : Nat} :
    l ∈ linesTogether ns ↔ ∃ n ∈ ns, n.RunsTogether l := by
  rw [linesTogether, LineSet.mem_ofList, List.mem_flatMap]
  exact exists_congr fun n => and_congr_right fun _ => Node.mem_lines_together

theorem mem_linesTogether_singleton {n : Node} {l : Nat} :
    l ∈ linesTogether [n] ↔ n.RunsTogether l := by
  rw [mem_linesTogether]
  simp

/-- The first of the lines that run with a node is the least of them. -/
theorem least_of_head? {n : Node} {l : Nat} (h : (linesTogether [n]).head? = some l) :
    n.RunsTogether l ∧ ∀ k, n.RunsTogether k → l ≤ k := by
  obtain ⟨rest, hlines⟩ := List.head?_eq_some_iff.1 h
  have hascending : (l :: rest).Pairwise (· < ·) := hlines ▸ LineSet.pairwise_ofList _
  refine ⟨mem_linesTogether_singleton.1 (List.mem_of_head? h), fun k hk => ?_⟩
  have hmem := mem_linesTogether_singleton.2 hk
  rw [hlines] at hmem
  rcases List.mem_cons.1 hmem with rfl | hlater
  · exact Nat.le_refl _
  · exact Nat.le_of_lt ((List.pairwise_cons.1 hascending).1 k hlater)

/-- A node without a first line runs nothing. -/
theorem idle_of_head? {n : Node} (h : (linesTogether [n]).head? = none) (l : Nat) :
    ¬n.RunsTogether l := by
  intro hl
  have hmem := mem_linesTogether_singleton.2 hl
  rw [List.head?_eq_none_iff.1 h] at hmem
  exact List.not_mem_nil hmem

/-! ## Bodies of functions -/

/-- The line on which a function's body begins. -/
inductive BeginsOn (body : Node) : Option Nat → Prop
  | concise (hconcise : body.isBlock = false) : BeginsOn body (some body.line)
  | first {l : Nat} (hblock : body.isBlock = true) (hl : body.RunsTogether l)
      (hleast : ∀ k, body.RunsTogether k → l ≤ k) : BeginsOn body (some l)
  | idle (hblock : body.isBlock = true) (hnone : ∀ l, ¬body.RunsTogether l) : BeginsOn body none

/-- A body begins on the first line that it runs, or on its own if it is concise. -/
theorem beginsOn_bodyLine? (body : Node) : BeginsOn body (bodyLine? body) := by
  by_cases hblock : body.isBlock = true
  · rw [bodyLine?, if_pos hblock]
    cases hfirst : (linesTogether [body]).head? with
    | none => exact .idle hblock (idle_of_head? hfirst)
    | some l => exact .first hblock (least_of_head? hfirst).1 (least_of_head? hfirst).2
  · rw [bodyLine?, if_neg hblock]
    exact .concise (by simpa using hblock)

end Coverage.Script

namespace Coverage.SiteMap

open Script (Program Way Definition numberedExits)

/-! ## The map of a script -/

/-- Each exit has the line and the candidates of its way. -/
theorem forall₂_numberedExits (ws : List (Nat × Way)) :
    List.Forall₂ (fun w e => e.line = w.1 ∧ e.candidates = w.2.candidates w.1) ws
      (numberedExits ws) := by
  have hrows : List.Forall₂ (fun (w : Nat × Way) e => e.line = w.1
      ∧ e.candidates = w.2.candidates w.1) ((ranked Prod.fst ws).map Prod.fst)
      (numberedExits ws) := by
    rw [numberedExits, List.forall₂_map_right_iff, List.forall₂_map_left_iff]
    exact List.forall₂_same.2 fun x _ => ⟨rfl, rfl⟩
  rwa [map_fst_ranked] at hrows

/-- The lines of a map are those that some node of the script executes. -/
theorem mem_lines_ofProgram_iff {p : Program} {l : Nat} :
    l ∈ (ofProgram p).lines ↔ ∃ n, p.Holds n ∧ (n.Executes l ∨ n.Concise l) := by
  rw [mem_lines_ofProgram, List.mem_flatMap]
  simp only [Script.Node.mem_lines_whole]
  constructor
  · rintro ⟨root, hroot, n, hn, hl⟩
    exact ⟨n, ⟨root, hroot, hn⟩, hl⟩
  · rintro ⟨n, ⟨root, hroot, hn⟩, hl⟩
    exact ⟨root, hroot, n, hn, hl⟩

end Coverage.SiteMap
