/-
  Coverage.Proofs.Script.Origins

  Where the nodes of a script come from.

  `Found` pairs each part of a node with the value it was made of, and with the line of what is
  around it: the node, or for the parts of a switch the case.  `Program.Origin` follows such pairs
  from the root of the tree downwards.  A node with an origin is what its value reflects on the
  line around it (`Program.Origin.eq_node`), and every node of a script has an origin
  (`exists_origin`): both go part by part, once over the shapes (`part_of_found`,
  `found_of_part`).
-/

import Coverage.Proofs.Script.Preorder
import Coverage.Script.Reflected

namespace Coverage.Script

open Json (Value)

/-! ## One node -/

/-- The node that a value reflects inside a node on `line`. -/
def nodeOf (line : Nat) (v : Value) : Node :=
  Seed.node ⟨line, some v⟩

/-- A node is on the line of its value, or else on that of what is around it. -/
theorem line_nodeOf (outer : Nat) (v : Value) :
    (nodeOf outer v).line = (startLine? v).getD outer := by
  rw [nodeOf, Seed.node_eq]
  rfl

/-- A node ends where its value does, if that is not before its own line. -/
theorem endLine_nodeOf (outer : Nat) (v : Value) :
    (nodeOf outer v).endLine
      = max ((endLine? v).getD (nodeOf outer v).line) (nodeOf outer v).line := by
  rw [line_nodeOf, nodeOf, Seed.node_eq]
  rfl

/-- The parts of a node are the nodes of what is due in its value. -/
theorem construct_nodeOf (outer : Nat) (v : Value) :
    (nodeOf outer v).construct = (Seed.constructOf (nodeOf outer v).line v).map Seed.node := by
  rw [line_nodeOf, nodeOf, Seed.node_eq]
  rfl

/-- Where a part is missing there is an empty block. -/
theorem node_missing (outer : Nat) : Seed.node ⟨outer, none⟩ = ⟨outer, outer, .block []⟩ := by
  rw [Seed.node_eq]
  show Node.mk outer (max outer outer) _ = _
  rw [Nat.max_self]
  rfl

/-! ## Values of parts -/

/-- The value under a key, if it reflects a node. -/
def nodeUnder? (v : Value) (key : String) : Option Value :=
  (v.get? key).filter isNode

/-- The values of the parameters of a function. -/
def parameterNodes (v : Value) : List Value :=
  (valuesUnder v "params" ++ valuesUnder v "defaults" ++ valuesUnder v "rest").filter isNode

/-- The values of the cases of a switch. -/
def labels (v : Value) : List Value :=
  (itemsUnder v "cases").filter (·.members?.isSome)

/-- The keys of what a loop evaluates around its body. -/
def LoopForm.headKeys : LoopForm → List String
  | .counted => ["init", "test", "update"]
  | .overKeys | .overItems => ["left", "right"]
  | .testFirst | .testLast => ["test"]

/-- A construct made of the value `v` on `line` has a part that was made of a value, or of none if
    it is missing, on the line of what is around it. -/
inductive Found (v : Value) (line : Nat) : Construct Node → Nat → Option Value → Node → Prop
  | parameter {form : FunctionForm} {name : Option String} {params : List Node} {body n : Node}
      {w : Value} (h : (w, n) ∈ (parameterNodes v).zip params) :
      Found v line (.function form name params body) line (some w) n
  | functionBody {form : FunctionForm} {name : Option String} {params : List Node} {n : Node} :
      Found v line (.function form name params n) line (nodeUnder? v "body") n
  | test {consequent n : Node} {alternate : Option Node} :
      Found v line (.conditional n consequent alternate) line (nodeUnder? v "test") n
  | consequent {test n : Node} {alternate : Option Node} :
      Found v line (.conditional test n alternate) line (nodeUnder? v "consequent") n
  | alternate {test consequent n : Node} {alternate : Option Node} (h : alternate = some n) :
      Found v line (.conditional test consequent alternate) line (nodeUnder? v "alternate") n
  | discriminant {n : Node} {cases : List (Case Node)} :
      Found v line (.switch n cases) line (nodeUnder? v "discriminant") n
  | caseTest {discriminant n : Node} {cases : List (Case Node)} {label : Value} {k : Case Node}
      (hk : (label, k) ∈ (labels v).zip cases) (h : k.test = some n) :
      Found v line (.switch discriminant cases) k.line (nodeUnder? label "test") n
  | caseStatement {discriminant n : Node} {cases : List (Case Node)} {label w : Value}
      {k : Case Node} (hk : (label, k) ∈ (labels v).zip cases)
      (h : (w, n) ∈ ((itemsUnder label "consequent").filter isNode).zip k.consequent) :
      Found v line (.switch discriminant cases) k.line (some w) n
  | head {form : LoopForm} {head : List Node} {body n : Node} {w : Value}
      (h : (w, n) ∈ (form.headKeys.filterMap (nodeUnder? v)).zip head) :
      Found v line (.loop form head body) line (some w) n
  | loopBody {form : LoopForm} {head : List Node} {n : Node} :
      Found v line (.loop form head n) line (nodeUnder? v "body") n
  | blockMember {children : List Node} {n : Node} {w : Value}
      (h : (w, n) ∈ ((orderedChildNodes line v).filter isNode).zip children) :
      Found v line (.block children) line (some w) n
  | statementPart {children : List Node} {n : Node} {w : Value}
      (h : (w, n) ∈ ((orderedChildNodes line v).filter isNode).zip children) :
      Found v line (.statement children) line (some w) n
  | expressionPart {children : List Node} {n : Node} {w : Value}
      (h : (w, n) ∈ ((orderedChildNodes line v).filter isNode).zip children) :
      Found v line (.expression children) line (some w) n

/-- A node of a script was made of a value, or of none where a part is missing, on the line of the
    node or case around it; `top` is the line of the root. -/
inductive Program.Origin (p : Program) (root : Value) (top : Nat) :
    Nat → Option Value → Node → Prop
  | top {v : Value} {n : Node} (h : (v, n) ∈ ((itemsUnder root "body").filter isNode).zip p.body) :
      Origin p root top top (some v) n
  | part {outer inner : Nat} {v : Value} {w : Option Value} {m n : Node}
      (h : Origin p root top outer (some v) m) (hfound : Found v m.line m.construct inner w n) :
      Origin p root top inner w n

/-! ## Nodes with an origin -/

/-- What is found in a construct is a part of it. -/
theorem Found.part {v : Value} {line inner : Nat} {construct : Construct Node} {w : Option Value}
    {n : Node} (h : Found v line construct inner w n) : construct.Part n := by
  cases h with
  | parameter h => exact .parameter (List.of_mem_zip h).2
  | functionBody => exact .functionBody
  | test => exact .test
  | consequent => exact .consequent
  | alternate h => exact h ▸ .alternate
  | discriminant => exact .discriminant
  | caseTest hk h => exact .caseTest (List.of_mem_zip hk).2 h
  | caseStatement hk h => exact .caseStatement (List.of_mem_zip hk).2 (List.of_mem_zip h).2
  | head h => exact .head (List.of_mem_zip h).2
  | loopBody => exact .loopBody
  | blockMember h => exact .blockMember (List.of_mem_zip h).2
  | statementPart h => exact .statementPart (List.of_mem_zip h).2
  | expressionPart h => exact .expressionPart (List.of_mem_zip h).2

/-- A node with an origin is a node of the script. -/
theorem Program.Origin.holds {p : Program} {root : Value} {top outer : Nat} {w : Option Value}
    {n : Node} (h : p.Origin root top outer w n) : p.Holds n := by
  induction h with
  | top h => exact ⟨_, (List.of_mem_zip h).2, .self _⟩
  | part _ hfound ih => exact ih.part hfound.part

/-! ## Parts and what is due -/

theorem mem_zip_map {α β : Type} {f : α → β} {as : List α} {a : α} {b : β} :
    (a, b) ∈ as.zip (as.map f) ↔ a ∈ as ∧ b = f a := by
  rw [← List.map_prod_left_eq_zip, List.mem_map]
  constructor
  · rintro ⟨_, ha, heq⟩
    cases heq
    exact ⟨ha, rfl⟩
  · rintro ⟨ha, rfl⟩
    exact ⟨a, ha, rfl⟩

/-- A seed among some values is one of their nodes, on the line of what is around it. -/
theorem mem_ofValues {line inner : Nat} {vs : List Value} {w : Option Value} :
    (⟨inner, w⟩ : Seed) ∈ Seed.ofValues line vs
      ↔ inner = line ∧ ∃ v, w = some v ∧ v ∈ vs.filter isNode := by
  rw [Seed.ofValues, List.mem_map]
  constructor
  · rintro ⟨v, hv, heq⟩
    cases heq
    exact ⟨rfl, v, rfl, hv⟩
  · rintro ⟨rfl, v, rfl, hv⟩
    exact ⟨v, hv, rfl⟩

/-- The nodes among some values are paired with the nodes that are made of them. -/
theorem mem_zip_ofValues {line : Nat} {vs : List Value} {w : Value} {n : Node} :
    (w, n) ∈ (vs.filter isNode).zip ((Seed.ofValues line vs).map Seed.node)
      ↔ (⟨line, some w⟩ : Seed) ∈ Seed.ofValues line vs ∧ n = nodeOf line w := by
  rw [mem_ofValues, Seed.ofValues, List.map_map]
  refine mem_zip_map.trans (and_congr_left fun _ => ?_)
  simp

/-- A part under a key is due if a node stands there. -/
theorem part?_eq_some {line inner : Nat} {v : Value} {key : String} {w : Option Value} :
    Seed.part? line v key = some ⟨inner, w⟩
      ↔ inner = line ∧ w.isSome ∧ nodeUnder? v key = w := by
  rw [Seed.part?, Option.map_eq_some_iff]
  constructor
  · rintro ⟨c, hc, heq⟩
    cases heq
    exact ⟨rfl, rfl, hc⟩
  · rintro ⟨rfl, hsome, hunder⟩
    obtain ⟨c, rfl⟩ := Option.isSome_iff_exists.1 hsome
    exact ⟨c, hunder, rfl⟩

/-- A part that may be missing was made of what stands under its key. -/
theorem part?_of_node {line : Nat} {v : Value} {key : String} {n : Node}
    (h : (Seed.part? line v key).map Seed.node = some n) :
    Seed.part? line v key = some ⟨line, nodeUnder? v key⟩
      ∧ n = Seed.node ⟨line, nodeUnder? v key⟩ := by
  obtain ⟨t, ht, rfl⟩ := Option.map_eq_some_iff.1 h
  obtain ⟨rfl, -, hunder⟩ := part?_eq_some.1 ht
  rw [hunder]
  exact ⟨ht, rfl⟩

/-- The parameters of a function are due as if they stood in one list. -/
theorem parameters_eq (line : Nat) (v : Value) :
    Seed.ofValues line (valuesUnder v "params") ++ Seed.ofValues line (valuesUnder v "defaults")
        ++ Seed.ofValues line (valuesUnder v "rest")
      = Seed.ofValues line
        (valuesUnder v "params" ++ valuesUnder v "defaults" ++ valuesUnder v "rest") := by
  simp only [Seed.ofValues, List.filter_append, List.map_append]

/-- The head of a loop is due key by key, as far as a node stands under it. -/
theorem headParts_eq (line : Nat) (v : Value) (keys : List String) :
    keys.filterMap (Seed.part? line v)
      = (keys.filterMap (nodeUnder? v)).map fun w => ⟨line, some w⟩ :=
  List.map_filterMap.symm

/-- The keys of the head of a loop are told by its form. -/
theorem Shape.headKeys_eq {name : String} {form : LoopForm} {keys : List String}
    (h : Shape.ofType name = .loop form keys) : keys = form.headKeys := by
  have htable : ∀ e ∈ Shape.table, e.2 = .loop form keys → keys = form.headKeys := by
    intro e he hshape
    -- Only five of the types are loops.
    simp only [Shape.table, List.mem_cons, List.not_mem_nil, or_false] at he
    rcases he with rfl | rfl | rfl | rfl | rfl | rfl | rfl | rfl | rfl | rfl | rfl | rfl | rfl
      | rfl | rfl <;> cases hshape <;> rfl
  unfold Shape.ofType at h
  split at h
  · rename_i shape hshape
    obtain ⟨before, after, hsplit, -⟩ := List.lookup_eq_some_iff.1 hshape
    refine htable (name, shape) ?_ h
    rw [hsplit]
    exact List.mem_append_right _ List.mem_cons_self
  · split at h <;> cases h

/-- A case whose parts are those that are due in another one. -/
def caseOf (c : Case Seed) : Case Node :=
  { line := c.line, test := c.test.map Seed.node, consequent := c.consequent.map Seed.node }

/-- Each case of a switch is made of its own value. -/
theorem mem_zip_cases {line : Nat} {v label : Value} {k : Case Node} :
    (label, k) ∈ (labels v).zip ((Seed.switchCases line v).map caseOf)
      ↔ label ∈ labels v ∧ k = caseOf (Seed.switchCase line label) := by
  rw [Seed.switchCases, List.map_map]
  exact mem_zip_map

/-- A part that is found is the node of one that is due. -/
theorem part_of_found {v : Value} {line inner : Nat} {w : Option Value} {n : Node}
    (h : Found v line ((Seed.constructOf line v).map Seed.node) inner w n) :
    (Seed.constructOf line v).Part ⟨inner, w⟩ ∧ n = Seed.node ⟨inner, w⟩ := by
  -- One case for each shape; each way to find a part is one way to be a part that is due.
  unfold Seed.constructOf at h ⊢
  split at h
  · rw [parameters_eq] at h ⊢
    cases h with
    | parameter h =>
      obtain ⟨hdue, hn⟩ := mem_zip_ofValues.1 h
      exact ⟨.parameter hdue, hn⟩
    | functionBody => exact ⟨.functionBody, rfl⟩
  · cases h with
    | test => exact ⟨.test, rfl⟩
    | consequent => exact ⟨.consequent, rfl⟩
    | alternate h =>
      obtain ⟨hdue, hn⟩ := part?_of_node h
      rw [hdue]
      exact ⟨.alternate, hn⟩
  · cases h with
    | discriminant => exact ⟨.discriminant, rfl⟩
    | caseTest hk h =>
      obtain ⟨hlabel, rfl⟩ := mem_zip_cases.1 hk
      obtain ⟨hdue, hn⟩ := part?_of_node h
      exact ⟨.caseTest (List.mem_map_of_mem hlabel) hdue, hn⟩
    | caseStatement hk h =>
      obtain ⟨hlabel, rfl⟩ := mem_zip_cases.1 hk
      obtain ⟨hdue, hn⟩ := mem_zip_ofValues.1 h
      exact ⟨.caseStatement (List.mem_map_of_mem hlabel) hdue, hn⟩
  · rename_i form keys hshape
    rw [Shape.headKeys_eq hshape, headParts_eq] at h ⊢
    cases h with
    | head h =>
      rw [List.map_map] at h
      obtain ⟨hdue, hn⟩ := mem_zip_map.1 h
      exact ⟨.head (List.mem_map_of_mem hdue), hn⟩
    | loopBody => exact ⟨.loopBody, rfl⟩
  · cases h with
    | blockMember h =>
      obtain ⟨hdue, hn⟩ := mem_zip_ofValues.1 h
      exact ⟨.blockMember hdue, hn⟩
  · cases h with
    | statementPart h =>
      obtain ⟨hdue, hn⟩ := mem_zip_ofValues.1 h
      exact ⟨.statementPart hdue, hn⟩
  · cases h with
    | expressionPart h =>
      obtain ⟨hdue, hn⟩ := mem_zip_ofValues.1 h
      exact ⟨.expressionPart hdue, hn⟩

/-- The node of every part that is due is found. -/
theorem found_of_part {v : Value} {line inner : Nat} {w : Option Value}
    (h : (Seed.constructOf line v).Part ⟨inner, w⟩) :
    Found v line ((Seed.constructOf line v).map Seed.node) inner w (Seed.node ⟨inner, w⟩) := by
  unfold Seed.constructOf at h ⊢
  split at h
  · rw [parameters_eq] at h ⊢
    cases h with
    | parameter h =>
      obtain ⟨rfl, c, rfl, -⟩ := mem_ofValues.1 h
      exact .parameter (mem_zip_ofValues.2 ⟨h, rfl⟩)
    | functionBody => exact .functionBody
  · -- An alternate that is missing leaves no empty block in its place.
    generalize hother : Seed.part? line v "alternate" = other at h
    cases h with
    | test => exact .test
    | consequent => exact .consequent
    | alternate =>
      obtain ⟨rfl, -, rfl⟩ := part?_eq_some.1 hother
      exact .alternate rfl
  · cases h with
    | discriminant => exact .discriminant
    | caseTest hc h =>
      -- What is around the parts of a case is the case, so they are due on its line.
      obtain ⟨label, hlabel, rfl⟩ := List.mem_map.1 hc
      obtain ⟨rfl, -, rfl⟩ := part?_eq_some.1 h
      exact .caseTest (mem_zip_cases.2 ⟨hlabel, rfl⟩) (congrArg (Option.map Seed.node) h)
    | caseStatement hc h =>
      obtain ⟨label, hlabel, rfl⟩ := List.mem_map.1 hc
      obtain ⟨rfl, c, rfl, -⟩ := mem_ofValues.1 h
      exact .caseStatement (mem_zip_cases.2 ⟨hlabel, rfl⟩) (mem_zip_ofValues.2 ⟨h, rfl⟩)
  · rename_i form keys hshape
    rw [Shape.headKeys_eq hshape, headParts_eq] at h ⊢
    cases h with
    | head h =>
      obtain ⟨c, hc, heq⟩ := List.mem_map.1 h
      cases heq
      refine .head ?_
      rw [List.map_map]
      exact mem_zip_map.2 ⟨hc, rfl⟩
    | loopBody => exact .loopBody
  · cases h with
    | blockMember h =>
      obtain ⟨rfl, c, rfl, -⟩ := mem_ofValues.1 h
      exact .blockMember (mem_zip_ofValues.2 ⟨h, rfl⟩)
  · cases h with
    | statementPart h =>
      obtain ⟨rfl, c, rfl, -⟩ := mem_ofValues.1 h
      exact .statementPart (mem_zip_ofValues.2 ⟨h, rfl⟩)
  · cases h with
    | expressionPart h =>
      obtain ⟨rfl, c, rfl, -⟩ := mem_ofValues.1 h
      exact .expressionPart (mem_zip_ofValues.2 ⟨h, rfl⟩)

/-! ## Scripts -/

/-- The line of the root of a tree. -/
def rootLine (root : Value) : Nat :=
  (startLine? root).getD 1

variable {root : Value} {filename : String} {p : Program}

/-- The body of a script is made of the nodes in the list under the root. -/
theorem body_of_ofValue (h : Program.ofValue root filename = .ok p) :
    p.body = (Seed.ofValues (rootLine root) (itemsUnder root "body")).map Seed.node := by
  unfold Program.ofValue at h
  split at h
  · split at h
    · cases h
    · rename_i items hitems
      cases h
      rw [itemsUnder, hitems]
      rfl
  · cases h

/-- A node with an origin is the one that is due there. -/
theorem Program.Origin.eq_node (h : Program.ofValue root filename = .ok p) {outer : Nat}
    {w : Option Value} {n : Node} (hn : p.Origin root (rootLine root) outer w n) :
    n = Seed.node ⟨outer, w⟩ := by
  induction hn with
  | top hpair =>
    rw [body_of_ofValue h] at hpair
    exact (mem_zip_ofValues.1 hpair).2
  | @part outer inner v w m n _ hfound ih =>
    have hnode : m = nodeOf outer v := ih
    rw [hnode, construct_nodeOf] at hfound
    exact (part_of_found hfound).2

/-- A part of a node with an origin has one too. -/
theorem Program.Origin.exists_part (h : Program.ofValue root filename = .ok p) {outer : Nat}
    {w : Option Value} {m n : Node} (hm : p.Origin root (rootLine root) outer w m)
    (hpart : m.construct.Part n) : ∃ inner u, p.Origin root (rootLine root) inner u n := by
  obtain rfl := hm.eq_node h
  cases w with
  | none =>
    rw [node_missing] at hpart
    cases hpart with
    | blockMember hmem => exact absurd hmem List.not_mem_nil
  | some v =>
    have hconstruct : (Seed.node ⟨outer, some v⟩).construct = _ := construct_nodeOf outer v
    -- The parts of the node are the nodes of the parts that are due in it.
    rw [hconstruct, Construct.part_iff, Construct.children_map] at hpart
    obtain ⟨⟨inner, u⟩, hdue, rfl⟩ := List.mem_map.1 hpart
    refine ⟨inner, u, hm.part ?_⟩
    rw [hconstruct]
    exact found_of_part (Construct.part_iff.2 hdue)

/-- Every node of a script has an origin. -/
theorem exists_origin (h : Program.ofValue root filename = .ok p) {n : Node} (hn : p.Holds n) :
    ∃ outer w, p.Origin root (rootLine root) outer w n := by
  -- The members of the body have an origin at the root, and it is passed on from a node to its
  -- parts, by induction on the way to the node.
  have hbody : ∀ m ∈ p.body, ∃ outer w, p.Origin root (rootLine root) outer w m := by
    intro m hm
    rw [body_of_ofValue h] at hm
    obtain ⟨⟨outer, w⟩, hdue, rfl⟩ := List.mem_map.1 hm
    obtain ⟨rfl, v, rfl, -⟩ := mem_ofValues.1 hdue
    refine ⟨_, some v, .top ?_⟩
    rw [body_of_ofValue h]
    exact mem_zip_ofValues.2 ⟨hdue, rfl⟩
  have hreaches {m n : Node} (hreach : m.Reaches .everything n)
      (hm : ∃ outer w, p.Origin root (rootLine root) outer w m) :
      ∃ outer w, p.Origin root (rootLine root) outer w n := by
    induction hreach with
    | self => exact hm
    | through _ hpart _ ih =>
      obtain ⟨outer, w, horigin⟩ := hm
      exact ih (horigin.exists_part h hpart)
  obtain ⟨m, hm, hreach⟩ := hn
  exact hreaches hreach (hbody m hm)

end Coverage.Script
