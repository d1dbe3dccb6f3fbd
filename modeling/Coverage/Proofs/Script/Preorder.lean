/-
  Coverage.Proofs.Script.Preorder

  The nodes of a tree, and the order in which they are met.

  `Construct.Part` says for each construct where it keeps its parts, and the children of a node
  are all of its parts (`part_iff`).  `Node.Reaches` follows parts downwards, into functions or
  not.  A tree in preorder holds every node that is reached (`mem_preorder`), and the nodes of a
  script are met in preorder, whatever runs after them (`map_fst_visits`).
-/

import Coverage.SiteMap.Survey

namespace Coverage.Script

/-! ## Parts -/

/-- What a construct is made of, wherever it stands in it. -/
inductive Construct.Part {α : Type} (x : α) : Construct α → Prop
  | parameter {form : FunctionForm} {name : Option String} {params : List α} {body : α}
      (h : x ∈ params) : Part x (.function form name params body)
  | functionBody {form : FunctionForm} {name : Option String} {params : List α} :
      Part x (.function form name params x)
  | test {consequent : α} {alternate : Option α} : Part x (.conditional x consequent alternate)
  | consequent {test : α} {alternate : Option α} : Part x (.conditional test x alternate)
  | alternate {test consequent : α} : Part x (.conditional test consequent (some x))
  | discriminant {cases : List (Case α)} : Part x (.switch x cases)
  | caseTest {discriminant : α} {cases : List (Case α)} {c : Case α} (hc : c ∈ cases)
      (h : c.test = some x) : Part x (.switch discriminant cases)
  | caseStatement {discriminant : α} {cases : List (Case α)} {c : Case α} (hc : c ∈ cases)
      (h : x ∈ c.consequent) : Part x (.switch discriminant cases)
  | head {form : LoopForm} {head : List α} {body : α} (h : x ∈ head) : Part x (.loop form head body)
  | loopBody {form : LoopForm} {head : List α} : Part x (.loop form head x)
  | blockMember {children : List α} (h : x ∈ children) : Part x (.block children)
  | statementPart {children : List α} (h : x ∈ children) : Part x (.statement children)
  | expressionPart {children : List α} (h : x ∈ children) : Part x (.expression children)

/-- The children are all parts. -/
theorem Construct.part_iff {α : Type} {x : α} {c : Construct α} : c.Part x ↔ x ∈ c.children := by
  constructor
  · intro h
    cases h with
    | head h => exact mem_children_loop.2 (.inr h)
    | loopBody => exact mem_children_loop.2 (.inl rfl)
    | caseTest hc h =>
      exact List.mem_cons_of_mem _ (List.mem_flatMap.2 ⟨_, hc, by simp [h]⟩)
    | caseStatement hc h =>
      exact List.mem_cons_of_mem _ (List.mem_flatMap.2 ⟨_, hc, List.mem_append_right _ h⟩)
    | _ => simp_all [children]
  · intro h
    cases c with
    | function form name params body =>
      rcases List.mem_append.1 h with hparam | hbody
      · exact .parameter hparam
      · exact List.mem_singleton.1 hbody ▸ .functionBody
    | conditional test consequent alternate =>
      simp only [children, List.mem_cons, Option.mem_toList] at h
      rcases h with rfl | rfl | rfl
      · exact .test
      · exact .consequent
      · exact .alternate
    | switch discriminant cases =>
      simp only [children, List.mem_cons, List.mem_flatMap, List.mem_append, Option.mem_toList] at h
      rcases h with rfl | ⟨c, hc, htest | hstatement⟩
      · exact .discriminant
      · exact .caseTest hc htest
      · exact .caseStatement hc hstatement
    | loop form head body =>
      rcases mem_children_loop.1 h with rfl | hhead
      · exact .loopBody
      · exact .head hhead
    | block cs => exact .blockMember h
    | statement cs => exact .statementPart h
    | expression cs => exact .expressionPart h

/-! ## What is reached from a node -/

/-- Whether the parts of a node are looked at: those of a function are not, if it is left out. -/
def Reach.Enters (reach : Reach) (n : Node) : Prop :=
  reach = .sameCall → n.isFunction = false

/-- A node leads to another one, by way of parts of nodes that are entered. -/
inductive Node.Reaches (reach : Reach) : Node → Node → Prop
  | self (n : Node) : Reaches reach n n
  | through {n c m : Node} (henter : reach.Enters n) (hpart : n.construct.Part c)
      (h : Reaches reach c m) : Reaches reach n m

/-- A node reaches itself, and what its children reach if it is entered. -/
theorem Node.reaches_iff {reach : Reach} {n m : Node} :
    n.Reaches reach m ↔ m = n ∨ (reach.Enters n ∧ ∃ c ∈ n.children, c.Reaches reach m) := by
  constructor
  · intro h
    cases h with
    | self => exact .inl rfl
    | through henter hpart h => exact .inr ⟨henter, _, Construct.part_iff.1 hpart, h⟩
  · rintro (rfl | ⟨henter, c, hc, h⟩)
    · exact .self m
    · exact .through henter (Construct.part_iff.2 hc) h

/-- Ways lead on from where others end. -/
theorem Node.Reaches.trans {reach : Reach} {n m k : Node} (hnm : n.Reaches reach m)
    (hmk : m.Reaches reach k) : n.Reaches reach k := by
  induction hnm with
  | self n => exact hmk
  | through henter hpart _ ih => exact .through henter hpart (ih hmk)

/-- Whether a node is somewhere in a script. -/
def Program.Holds (p : Program) (n : Node) : Prop :=
  ∃ root ∈ p.body, root.Reaches .everything n

/-- The parts of a node of a script are nodes of the script. -/
theorem Program.Holds.part {p : Program} {n c : Node} (hn : p.Holds n)
    (hpart : n.construct.Part c) : p.Holds c := by
  obtain ⟨root, hroot, hreach⟩ := hn
  have henter : Reach.everything.Enters n := fun h => by cases h
  exact ⟨root, hroot, hreach.trans (.through henter hpart (.self c))⟩

/-! ## Preorder -/

/-- A node and all nodes inside it, each before its parts. -/
def Node.preorder (n : Node) : List Node :=
  n :: n.children.attach.flatMap fun c =>
    have := Node.sizeOf_lt_of_mem_children c.2
    c.1.preorder
termination_by n

theorem Node.preorder_eq (n : Node) : n.preorder = n :: n.children.flatMap Node.preorder := by
  rw [preorder]
  congr 1
  simp [List.flatMap]

/-- All nodes of a script, each before its parts. -/
def Program.nodes (p : Program) : List Node :=
  p.body.flatMap Node.preorder

/-- The nodes of the preorder are those that the node reaches. -/
theorem Node.mem_preorder {n m : Node} : m ∈ n.preorder ↔ n.Reaches .everything m := by
  induction n using Node.induct with
  | step n ih =>
    have henter : Reach.everything.Enters n := fun h => by cases h
    rw [preorder_eq, List.mem_cons, List.mem_flatMap, reaches_iff]
    refine or_congr_right ((exists_congr fun c => and_congr_right fun hc => ih c hc).trans ?_)
    exact (and_iff_right henter).symm

/-- All nodes of a script are listed, and no others. -/
theorem Program.mem_nodes {p : Program} {n : Node} : n ∈ p.nodes ↔ p.Holds n := by
  rw [nodes, List.mem_flatMap]
  exact exists_congr fun root => and_congr_right fun _ => Node.mem_preorder

/-- Siblings are met one after another, each with what is inside it. -/
theorem map_fst_flatMap_visits {inSequence : Bool} {ns : List Node}
    (h : ∀ n ∈ ns, ∀ after, (visits (n, after)).map Prod.fst = n.preorder) :
    ((followed inSequence ns).flatMap visits).map Prod.fst = ns.flatMap Node.preorder := by
  induction ns with
  | nil => rfl
  | cons n rest ih =>
    obtain ⟨hn, hrest⟩ := List.forall_mem_cons.1 h
    rw [followed, List.flatMap_cons, List.map_append, hn, ih hrest, List.flatMap_cons]

/-- The survey visits the nodes in preorder. -/
theorem Node.map_fst_visits (n : Node) (after : Option Nat) :
    (visits (n, after)).map Prod.fst = n.preorder := by
  induction n using Node.induct generalizing after with
  | step n ih =>
    rw [visits_eq, preorder_eq, List.map_cons, map_fst_flatMap_visits ih]

/-- The nodes of a script are met in preorder. -/
theorem Program.map_fst_visits (p : Program) : p.visits.map Prod.fst = p.nodes :=
  map_fst_flatMap_visits fun n _ after => n.map_fst_visits after

end Coverage.Script
