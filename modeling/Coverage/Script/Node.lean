/-
  Coverage.Script.Node

  The syntax tree of a script, as far as coverage needs it: functions, decisions, loops,
  blocks and statements. Everything else is an expression that only carries its children.

  `Construct` is written over the type of its parts, so that `children` and `map` are
  plain functions; `Node` closes the recursion. `Node.sizeOf_lt_of_mem_children` is what
  every walk over the tree recurses by, and `Node.induct` is the matching induction.
-/

namespace Coverage.Script

/-- How a function is written. -/
inductive FunctionForm where
  | declaration
  | expression
  | arrow
  deriving DecidableEq, Repr

/-- The kinds of loop. -/
inductive LoopForm where
  | counted
  | overKeys
  | overItems
  | testFirst
  | testLast
  deriving DecidableEq, Repr

/-- One label of a switch with the statements after it. -/
structure Case (α : Type) where
  line : Nat
  /-- `none` for the default label. -/
  test : Option α
  consequent : List α

/-- What a node is, over the type of its parts. -/
inductive Construct (α : Type) where
  /-- `name` is `none` for an anonymous function. The body is a block, or an expression for
      a concise arrow. -/
  | function (form : FunctionForm) (name : Option String) (params : List α) (body : α)
  | conditional (test consequent : α) (alternate : Option α)
  | switch (discriminant : α) (cases : List (Case α))
  /-- `head` holds what is evaluated around the body: start, test and step, or both sides. -/
  | loop (form : LoopForm) (head : List α) (body : α)
  /-- A container of statements that is not executed itself. -/
  | block (children : List α)
  /-- Any other statement: it runs when its line runs. -/
  | statement (children : List α)
  | expression (children : List α)

/-- A node with the lines it begins and ends on, counted from 1. -/
structure Node where
  line : Nat
  endLine : Nat
  construct : Construct Node

/-- A whole script. -/
structure Program where
  body : List Node

/-! ## Parts of a construct -/

namespace Construct

variable {α : Type}

/-- The parts of a construct in the order they run. -/
def children : Construct α → List α
  | .function _ _ params body => params ++ [body]
  | .conditional test consequent alternate => test :: consequent :: alternate.toList
  | .switch discriminant cases =>
    discriminant :: cases.flatMap fun c => c.test.toList ++ c.consequent
  | .loop .testLast head body => body :: head
  | .loop _ head body => head ++ [body]
  | .block children => children
  | .statement children => children
  | .expression children => children

/-- Whether the parts are statements that run one after another. -/
def isBlock : Construct α → Bool
  | .block _ => true
  | _ => false

variable {β : Type}

/-- Replaces every part. -/
def map (f : α → β) : Construct α → Construct β
  | .function form name params body => .function form name (params.map f) (f body)
  | .conditional test consequent alternate =>
    .conditional (f test) (f consequent) (alternate.map f)
  | .switch discriminant cases =>
    .switch (f discriminant) <| cases.map fun c =>
      { line := c.line, test := c.test.map f, consequent := c.consequent.map f }
  | .loop form head body => .loop form (head.map f) (f body)
  | .block children => .block (children.map f)
  | .statement children => .statement (children.map f)
  | .expression children => .expression (children.map f)

/-- The children of a loop are its body and its head, whichever comes first. -/
theorem mem_children_loop {form : LoopForm} {head : List α} {body x : α} :
    x ∈ (Construct.loop form head body).children ↔ x = body ∨ x ∈ head := by
  cases form <;> simp [children, or_comm]

/-- Replaces every part by a function that is only asked about parts. -/
def mapParts (c : Construct α) (f : ∀ x, x ∈ c.children → β) : Construct β :=
  match c with
  | .function form name params body =>
    .function form name
      (params.attach.map fun x => f x.1 (by simp [children, x.2]))
      (f body (by simp [children]))
  | .conditional test consequent alternate =>
    .conditional (f test (by simp [children])) (f consequent (by simp [children]))
      (alternate.attach.map fun x => f x.1 (by simp [children, x.2]))
  | .switch discriminant cases =>
    .switch (f discriminant (by simp [children])) <| cases.attach.map fun c =>
      { line := c.1.line
        test := c.1.test.attach.map fun x => f x.1 (by
          simp only [children, List.mem_cons, List.mem_flatMap]
          exact .inr ⟨c.1, c.2, by simp [x.2]⟩)
        consequent := c.1.consequent.attach.map fun x => f x.1 (by
          simp only [children, List.mem_cons, List.mem_flatMap]
          exact .inr ⟨c.1, c.2, by simp [x.2]⟩) }
  | .loop form head body =>
    .loop form (head.attach.map fun x => f x.1 (mem_children_loop.2 (.inr x.2)))
      (f body (mem_children_loop.2 (.inl rfl)))
  | .block children => .block (children.attach.map fun x => f x.1 x.2)
  | .statement children => .statement (children.attach.map fun x => f x.1 x.2)
  | .expression children => .expression (children.attach.map fun x => f x.1 x.2)

/-- Mapping the parts as members of the construct is mapping them. -/
theorem mapParts_eq_map (c : Construct α) (f : α → β) :
    (c.mapParts fun x _ => f x) = c.map f := by
  cases c with
  | switch discriminant cases =>
    have hcase : ∀ k : Case α,
        ({ line := k.line, test := k.test.attach.map fun x => f x.1,
           consequent := k.consequent.attach.map fun x => f x.1 } : Case β)
          = { line := k.line, test := k.test.map f, consequent := k.consequent.map f } := by
      intro k; simp
    simp only [mapParts, map, hcase]
    congr 1
    exact List.attach_map_val (f := fun k : Case α =>
      ({ line := k.line, test := k.test.map f, consequent := k.consequent.map f } : Case β))
  | _ => simp [mapParts, map]

/-- The children of what was made part by part are made of the children. -/
theorem children_map (c : Construct α) (f : α → β) :
    (c.map f).children = c.children.map f := by
  cases c with
  | loop form head body => cases form <;> simp [map, children]
  | switch discriminant cases =>
    simp [map, children, List.map_flatMap, List.flatMap_map, Option.toList_map]
  | conditional test consequent alternate => cases alternate <;> simp [map, children]
  | _ => simp [map, children]

end Construct

namespace Node

/-- A node from its two lines; a node cannot end before it begins. -/
def spanning (line endLine : Nat) (construct : Construct Node) : Node :=
  ⟨line, max endLine line, construct⟩

/-- The parts of a node in the order they run. -/
def children (n : Node) : List Node :=
  n.construct.children

/-- Whether a node is a block. -/
def isBlock (n : Node) : Bool :=
  n.construct.isBlock

/-! ## Walking the tree -/

/-- A child is smaller than the node, so going down a tree ends. -/
theorem sizeOf_lt_of_mem_children {n c : Node} (h : c ∈ n.children) : sizeOf c < sizeOf n := by
  obtain ⟨line, endLine, construct⟩ := n
  cases construct with
  | function form name params body =>
    simp only [children, Construct.children, List.mem_append, List.mem_singleton] at h
    rcases h with h | rfl
    · have := List.sizeOf_lt_of_mem h
      simp; omega
    · simp; omega
  | conditional test consequent alternate =>
    simp only [children, Construct.children, List.mem_cons, Option.mem_toList] at h
    rcases h with rfl | rfl | rfl <;> simp <;> omega
  | switch discriminant cases =>
    simp only [children, Construct.children, List.mem_cons, List.mem_flatMap] at h
    rcases h with rfl | ⟨⟨caseLine, test, consequent⟩, hcase, hc⟩
    · simp; omega
    · have := List.sizeOf_lt_of_mem hcase
      simp only [List.mem_append, Option.mem_toList, Case.mk.sizeOf_spec] at hc this
      rcases hc with rfl | hc
      · simp at this ⊢; omega
      · have := List.sizeOf_lt_of_mem hc
        simp; omega
  | loop form head body =>
    rcases Construct.mem_children_loop.1 h with rfl | h
    · simp; omega
    · have := List.sizeOf_lt_of_mem h
      simp; omega
  | block cs | statement cs | expression cs =>
    have := List.sizeOf_lt_of_mem (show c ∈ cs from h)
    simp; omega

/-- What holds of a node whenever it holds of its children holds of every node. -/
theorem induct {P : Node → Prop} (step : ∀ n, (∀ c ∈ n.children, P c) → P n) (n : Node) :
    P n :=
  step n fun c _ => induct step c
termination_by n
decreasing_by exact sizeOf_lt_of_mem_children ‹_›

end Node
end Coverage.Script
