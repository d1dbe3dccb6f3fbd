/-
  Coverage.SiteMap.Survey

  The site map of a parsed script.

  The survey is a few questions put to the nodes of the tree in the order they are met:
  which lines run (`Node.lines`), which exits a node decides between (`Node.exits`), and
  which functions there are (`Node.function?`). Exits are then numbered within their line,
  and functions among those of one name and line, in the order they are met.
-/

import Coverage.Hits.Bag
import Coverage.Script.Node
import Coverage.SiteMap.Basic

namespace Coverage.Script

/-! ## Lines that run -/

/-- The line on which a loop that tests last decides: where its test begins, or its own
    last line if the test is missing. -/
def Node.testLine (n : Node) (head : List Node) : Nat :=
  match head with
  | [] => n.endLine
  | test :: _ => test.line

/-- Whether a node is a function. -/
def Node.isFunction (n : Node) : Bool :=
  match n.construct with
  | .function .. => true
  | _ => false

/-- The lines that run on account of a node itself. A function runs no line where it
    stands, but a concise arrow body is a statement of its own. -/
def Node.ownLines (n : Node) : List Nat :=
  match n.construct with
  | .function _ _ _ body => if body.isBlock then [] else [body.line]
  | .loop .testLast head _ => [n.line, n.testLine head]
  | .loop .. => [n.line]
  | .conditional .. => [n.line]
  | .switch .. => [n.line]
  | .statement _ => [n.line]
  | .block _ => []
  | .expression _ => []

/-- Which part of a tree is looked at. -/
inductive Reach where
  /-- All of it. -/
  | everything
  /-- What runs together with the node: functions inside it are left out. -/
  | sameCall
  deriving DecidableEq, Repr

/-- The lines that run on account of a node and what is in reach inside it. -/
def Node.lines (reach : Reach) (n : Node) : List Nat :=
  if n.isFunction && reach == .sameCall then []
  else
    n.ownLines ++ n.children.attach.flatMap fun c =>
      have := Node.sizeOf_lt_of_mem_children c.2
      c.1.lines reach
termination_by n

/-- What a node executes, over all its children at once. -/
theorem Node.lines_eq (reach : Reach) (n : Node) :
    n.lines reach = if n.isFunction && reach == .sameCall then []
      else n.ownLines ++ n.children.flatMap (Node.lines reach) := by
  rw [Node.lines]
  split
  · rfl
  · congr 1
    simp [List.flatMap]

/-- The lines that run when some statements do, functions inside them left out. -/
def linesTogether (ns : List Node) : List Nat :=
  LineSet.ofList (ns.flatMap (Node.lines .sameCall))

/-- The first line that runs in the first of some statements that runs any. -/
def firstLine? (ns : List Node) : Option Nat :=
  ns.findSome? fun n => (linesTogether [n]).head?

/-! ## Decisions -/

/-- The candidates of an exit into some statements: their lines but for that of the
    decision. -/
def candidates (decisionLine : Nat) (ns : List Node) : List Nat :=
  (linesTogether ns).filter (· ≠ decisionLine)

/-- The candidates of each label of a switch. A label without statements falls through to
    the next one that has some. -/
def switchCandidates (decisionLine : Nat) : List (Case Node) → List (List Nat)
  | [] => []
  | c :: rest =>
    let later := switchCandidates decisionLine rest
    if c.consequent.isEmpty then later.head?.getD [] :: later
    else candidates decisionLine c.consequent :: later

/-- The exits a node decides between, each with the line of the decision and its
    candidates. `after` is the line that runs next when a loop that tests last is left. -/
def Node.exits (n : Node) (after : Option Nat) : List (Nat × List Nat) :=
  match n.construct with
  | .conditional _ consequent alternate =>
    (consequent :: alternate.toList).map fun body => (n.line, candidates n.line [body])
  | .switch _ cases => (switchCandidates n.line cases).map fun ls => (n.line, ls)
  | .loop .testLast head body =>
    -- The first exit runs the body again, the second leaves the loop.
    let line := n.testLine head
    [(line, candidates line [body]), (line, after.toList.filter (· ≠ line))]
  | .loop _ _ body => [(n.line, candidates n.line [body])]
  | _ => []

/-- Exits numbered within their line, where `met` counts those met before. -/
def numberExits (met : Bag Nat) : List (Nat × List Nat) → List BranchExit
  | [] => []
  | (line, ls) :: rest => ⟨line, met.count line, ls⟩ :: numberExits (met.add line) rest

/-! ## Functions -/

/-- The first line that runs in a function's body: a concise body runs on its own line. -/
def bodyLine? (body : Node) : Option Nat :=
  if body.isBlock then (linesTogether [body]).head? else some body.line

/-- What is known of a function before it is numbered. -/
structure Definition where
  name : Option String
  line : Nat
  endLine : Nat
  bodyLine : Option Nat

/-- The function a node defines. -/
def Node.function? (n : Node) : Option Definition :=
  match n.construct with
  | .function _ name _ body => some ⟨name, n.line, n.endLine, bodyLine? body⟩
  | _ => none

/-- Functions numbered among those of one name and line, where `met` counts those met
    before. -/
def numberFunctions (met : Bag (Option String × Nat)) : List Definition → List FunctionSpan
  | [] => []
  | d :: rest =>
    let index := met.count (d.name, d.line)
    (FunctionSpan.declared d.name d.line index).withBody d.endLine d.bodyLine
      :: numberFunctions (met.add (d.name, d.line)) rest

/-! ## The order in which nodes are met -/

/-- Whether a node is a loop that tests last. -/
def Node.testsLast (n : Node) : Bool :=
  match n.construct with
  | .loop .testLast _ _ => true
  | _ => false

/-- Siblings, each with the line that runs after it if it is a loop that tests last and the
    siblings run one after another. -/
def followed (inSequence : Bool) : List Node → List (Node × Option Nat)
  | [] => []
  | n :: rest =>
    (n, if inSequence && n.testsLast then firstLine? rest else none) :: followed inSequence rest

/-- Noting what follows each node leaves the nodes themselves as they are. -/
theorem map_fst_followed (inSequence : Bool) (ns : List Node) :
    (followed inSequence ns).map Prod.fst = ns := by
  induction ns with
  | nil => rfl
  | cons n rest ih => simp [followed, ih]

/-- A node of which it is noted what follows is one of those given. -/
theorem mem_of_mem_followed {inSequence : Bool} {ns : List Node} {p : Node × Option Nat}
    (h : p ∈ followed inSequence ns) : p.1 ∈ ns := by
  rw [← map_fst_followed inSequence ns]
  exact List.mem_map_of_mem h

/-- A node and all nodes inside it, each before its parts. -/
def visits (p : Node × Option Nat) : List (Node × Option Nat) :=
  p :: (followed p.1.isBlock p.1.children).attach.flatMap fun c =>
    have := Node.sizeOf_lt_of_mem_children (mem_of_mem_followed c.2)
    visits c.1
termination_by p.1

/-- A node is visited, and then its children, each with what follows it. -/
theorem visits_eq (p : Node × Option Nat) :
    visits p = p :: (followed p.1.isBlock p.1.children).flatMap visits := by
  rw [visits]
  congr 1
  simp [List.flatMap]

/-- All nodes of a script in the order they are met. -/
def Program.visits (p : Program) : List (Node × Option Nat) :=
  (followed true p.body).flatMap Script.visits

end Coverage.Script

namespace Coverage.SiteMap

open Script (Program)

/-- The site map of a script. -/
def ofProgram (p : Program) : SiteMap :=
  canonical
    { lines := p.body.flatMap (Script.Node.lines .everything)
      exits := Script.numberExits .empty (p.visits.flatMap fun v => v.1.exits v.2)
      functions := Script.numberFunctions .empty (p.visits.filterMap fun v => v.1.function?) }

end Coverage.SiteMap
