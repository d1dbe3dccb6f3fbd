/-
  Coverage.Script.Reflected

  A script from the tree its engine reflects: JSON objects with a `type`, a location and
  children under names of their own.

  Only types that matter for coverage are told apart (`Shape.ofType`). A node of any other
  type keeps its children, found under all of its keys and put in order of position. A node
  without a usable line takes the line of the node around it.
-/

import Coverage.Json.Value
import Coverage.Script.Node

namespace Coverage.Script

open Json (Value)

/-! ## Faults -/

/-- A text, and after it what another library says of the same failure, where that is known. -/
def withDetail (text : String) : Option String → String
  | some detail => text ++ ": " ++ detail
  | none => text

/-- Why a script has no tree, and where as far as that is known. -/
structure SyntaxFault where
  filename : String
  line : Option Nat
  message : String
  deriving DecidableEq, Repr

namespace SyntaxFault

/-- The line of the fault as text. -/
def lineText (f : SyntaxFault) : String :=
  match f.line with
  | some n => toString n
  | none => "?"

/-- The fault as one line of text. -/
def text (f : SyntaxFault) : String :=
  f.filename ++ ":" ++ f.lineText ++ ": " ++ f.message

/-- The tree text is not JSON. `detail` is what the parser of JSON says of it. -/
def notJson (filename : String) (detail : Option String) : SyntaxFault :=
  ⟨filename, none, withDetail "invalid syntax tree JSON" detail⟩

/-- The root of the tree is not a whole script. -/
def notProgram (filename : String) : SyntaxFault :=
  ⟨filename, none, "root node is not a Program"⟩

/-- The root of the tree holds no list of statements. -/
def noBody (filename : String) : SyntaxFault :=
  ⟨filename, none, "Program has no body"⟩

end SyntaxFault

/-! ## Positions -/

/-- One number of a node's location, if it is there and fits 32 bits. -/
def position? (v : Value) (edge field : String) : Option Nat := do
  let loc ← v.get? "loc"
  let point ← loc.get? edge
  let n ← point.get? field
  n.natBelow? Text.Decimal.bound32

/-- The line a node begins on. Lines are counted from 1, so 0 is no line. -/
def startLine? (v : Value) : Option Nat :=
  (position? v "start" "line").filter (0 < ·)

/-- The line a node ends on. -/
def endLine? (v : Value) : Option Nat :=
  (position? v "end" "line").filter (0 < ·)

/-- The column a node begins at, 0 if it has none. -/
def startColumn (v : Value) : Nat :=
  (position? v "start" "column").getD 0

/-! ## Shapes -/

/-- How the parts of a node are found, told by its type. -/
inductive Shape where
  | function (form : FunctionForm)
  | conditional
  | switch
  /-- The head is found under these keys. -/
  | loop (form : LoopForm) (headKeys : List String)
  | block
  | statement
  | expression

/-- The types that have a shape of their own. -/
def Shape.table : List (String × Shape) :=
  [("FunctionDeclaration", .function .declaration),
    ("FunctionExpression", .function .expression),
    ("ArrowFunctionExpression", .function .arrow),
    ("IfStatement", .conditional),
    ("SwitchStatement", .switch),
    ("ForStatement", .loop .counted ["init", "test", "update"]),
    ("ForInStatement", .loop .overKeys ["left", "right"]),
    ("ForOfStatement", .loop .overItems ["left", "right"]),
    ("WhileStatement", .loop .testFirst ["test"]),
    ("DoWhileStatement", .loop .testLast ["test"]),
    ("BlockStatement", .block),
    ("EmptyStatement", .block),
    ("TryStatement", .block),
    ("LabeledStatement", .block),
    ("StaticBlock", .block)]

/-- Whether a type name ends in a word. -/
def endsIn (name word : String) : Bool :=
  word.toList.isSuffixOf name.toList

/-- The shape of a type: its own, or a statement or an expression by the end of its name. -/
def Shape.ofType (name : String) : Shape :=
  match Shape.table.lookup name with
  | some shape => shape
  | none =>
    if endsIn name "Statement" || endsIn name "Declaration" then .statement else .expression

/-! ## Where children stand -/

/-- Keys under which no children are looked for. -/
def attributeKeys : List String :=
  ["type", "loc", "range", "start", "end"]

/-- The nodes a value holds: itself, or the items of an array, as far as they have a type. -/
def typedNodes (v : Value) : List Value :=
  match v.items? with
  | some items => items.filter (·.hasKey "type")
  | none => if v.hasKey "type" then [v] else []

/-- The nodes under all keys of an object but its attributes. -/
def childNodes (v : Value) : List Value :=
  ((v.members?.getD []).filter fun m => !attributeKeys.contains m.1).flatMap
    fun m => typedNodes m.2

/-- Whether one node stands before another, or at the same place. -/
def standsBefore (line : Nat) (v w : Value) : Bool :=
  let v' := ((startLine? v).getD line, startColumn v)
  let w' := ((startLine? w).getD line, startColumn w)
  v'.1 < w'.1 || (v'.1 == w'.1 && v'.2 ≤ w'.2)

/-- The nodes under all keys of an object, in order of position, where a node without a
    line stands on `line`. Nodes at one place keep the order of their keys. -/
def orderedChildNodes (line : Nat) (v : Value) : List Value :=
  (childNodes v).mergeSort (standsBefore line)

/-- The values that may be nodes under a key: the items of an array, or the one value. -/
def valuesUnder (v : Value) (key : String) : List Value :=
  match v.get? key with
  | none => []
  | some w => w.items?.getD [w]

/-- The items of the array under a key. -/
def itemsUnder (v : Value) (key : String) : List Value :=
  ((v.get? key).bind Value.items?).getD []

/-! ### Children are smaller -/

/-- The value of a member is smaller than the object. -/
theorem sizeOf_lt_of_mem_members {v w : Value} {ms : List (String × Value)} {key : String}
    (hms : v.members? = some ms) (h : (key, w) ∈ ms) : sizeOf w < sizeOf v := by
  cases v <;> simp [Value.members?] at hms
  subst hms
  have := List.sizeOf_lt_of_mem h
  simp at this ⊢; omega

/-- A typed node is no larger than the value that holds it. -/
theorem sizeOf_le_of_mem_typedNodes {v c : Value} (h : c ∈ typedNodes v) :
    sizeOf c ≤ sizeOf v := by
  unfold typedNodes at h
  split at h
  · rename_i items hitems
    have := Value.sizeOf_lt_of_mem_items hitems (List.mem_filter.1 h).1
    omega
  · split at h
    · obtain rfl := List.mem_singleton.1 h
      omega
    · simp at h

/-- A child is smaller than the object. -/
theorem sizeOf_lt_of_mem_orderedChildNodes {line : Nat} {v c : Value}
    (h : c ∈ orderedChildNodes line v) : sizeOf c < sizeOf v := by
  have h' : c ∈ childNodes v := List.mem_mergeSort.1 h
  obtain ⟨⟨key, w⟩, hm, hc⟩ := List.mem_flatMap.1 h'
  have hle := sizeOf_le_of_mem_typedNodes hc
  have hm' := (List.mem_filter.1 hm).1
  cases hms : v.members? with
  | none => simp [hms] at hm'
  | some ms =>
    rw [hms] at hm'
    have := sizeOf_lt_of_mem_members hms hm'
    simp only at hle
    omega

/-- An item under a key is smaller than the object. -/
theorem sizeOf_lt_of_mem_itemsUnder {v c : Value} {key : String}
    (h : c ∈ itemsUnder v key) : sizeOf c < sizeOf v := by
  unfold itemsUnder at h
  cases hb : (v.get? key).bind Value.items? with
  | none => simp [hb] at h
  | some items =>
    rw [hb] at h
    obtain ⟨w, hw, hi⟩ := Option.bind_eq_some_iff.1 hb
    have h1 := Value.sizeOf_get?_lt hw
    have h2 := Value.sizeOf_lt_of_mem_items hi h
    omega

/-- A value under a key is smaller than the object. -/
theorem sizeOf_lt_of_mem_valuesUnder {v c : Value} {key : String}
    (h : c ∈ valuesUnder v key) : sizeOf c < sizeOf v := by
  unfold valuesUnder at h
  split at h
  · simp at h
  · rename_i w hw
    have h1 := Value.sizeOf_get?_lt hw
    cases hi : w.items? with
    | none =>
      rw [hi] at h
      obtain rfl := List.mem_singleton.1 h
      exact h1
    | some items =>
      rw [hi] at h
      have h2 := Value.sizeOf_lt_of_mem_items hi h
      omega

/-! ## Nodes -/

/-- The type of a node. -/
def typeName? (v : Value) : Option String :=
  (v.get? "type").bind Value.text?

/-- Whether a value reflects a node. -/
def isNode (v : Value) : Bool :=
  (typeName? v).isSome

/-- The name a function declares. -/
def declaredName? (v : Value) : Option String :=
  ((v.get? "id").bind (·.get? "name")).bind Value.text?

/-- Where a node is due: the line of the node around it, and the value that reflects it.
    Where a part is missing there is no value, and an empty block is due. -/
structure Seed where
  outerLine : Nat
  value : Option Value

namespace Seed

/-- The line the node begins on: its own, or that of the node around it. -/
def line (s : Seed) : Nat :=
  (s.value.bind startLine?).getD s.outerLine

/-- The line the node ends on: its own, or the line it begins on. -/
def endLine (s : Seed) : Nat :=
  (s.value.bind endLine?).getD s.line

/-- The nodes among some values, inside a node on `line`. -/
def ofValues (line : Nat) (vs : List Value) : List Seed :=
  (vs.filter isNode).map fun v => ⟨line, some v⟩

/-- The part under a key, inside a node on `line`. -/
def part (line : Nat) (v : Value) (key : String) : Seed :=
  ⟨line, (v.get? key).filter isNode⟩

/-- The part under a key, if there is one. -/
def part? (line : Nat) (v : Value) (key : String) : Option Seed :=
  ((v.get? key).filter isNode).map fun w => ⟨line, some w⟩

/-- One label of a switch on `line`. -/
def switchCase (line : Nat) (v : Value) : Case Seed :=
  let caseLine := (startLine? v).getD line
  { line := caseLine
    test := part? caseLine v "test"
    consequent := ofValues caseLine (itemsUnder v "consequent") }

/-- The labels of a switch on `line`. -/
def switchCases (line : Nat) (v : Value) : List (Case Seed) :=
  ((itemsUnder v "cases").filter (·.members?.isSome)).map (switchCase line)

/-- The parts of the node on `line` that a value reflects. Parameters stand under three keys,
    the defaults and the rest after the names. -/
def constructOf (line : Nat) (v : Value) : Construct Seed :=
  match Shape.ofType ((typeName? v).getD "") with
  -- Some engines list default values and the rest parameter under keys of their own.
  | .function form =>
    .function form (declaredName? v)
      (ofValues line (valuesUnder v "params") ++ ofValues line (valuesUnder v "defaults")
        ++ ofValues line (valuesUnder v "rest"))
      (part line v "body")
  | .conditional => .conditional (part line v "test") (part line v "consequent")
      (part? line v "alternate")
  | .switch => .switch (part line v "discriminant") (switchCases line v)
  | .loop form headKeys => .loop form (headKeys.filterMap (part? line v)) (part line v "body")
  | .block => .block (ofValues line (orderedChildNodes line v))
  | .statement => .statement (ofValues line (orderedChildNodes line v))
  | .expression => .expression (ofValues line (orderedChildNodes line v))

/-- The parts of the node that is due. -/
def construct (s : Seed) : Construct Seed :=
  match s.value with
  | none => .block []
  | some v => constructOf s.line v

/-! ### Parts are smaller -/

/-- The size of what reflects the node. -/
noncomputable def weight (s : Seed) : Nat :=
  match s.value with
  | none => 0
  | some v => sizeOf v

theorem weight_lt_of_mem_ofValues {line : Nat} {vs : List Value} {t : Seed} {n : Nat}
    (hvs : ∀ w ∈ vs, sizeOf w < n) (h : t ∈ ofValues line vs) : t.weight < n := by
  obtain ⟨w, hw, rfl⟩ := List.mem_map.1 h
  exact hvs w (List.mem_filter.1 hw).1

theorem weight_part_lt (line : Nat) (v : Value) (key : String) :
    (part line v key).weight < sizeOf v := by
  have hpos : 0 < sizeOf v := by cases v <;> simp +arith
  unfold part weight
  cases h : (v.get? key).filter isNode with
  | none => exact hpos
  | some w => exact Value.sizeOf_get?_lt (Option.filter_eq_some_iff.1 h).1

theorem weight_lt_of_part? {line : Nat} {v : Value} {key : String} {t : Seed}
    (h : part? line v key = some t) : t.weight < sizeOf v := by
  obtain ⟨w, hw, rfl⟩ := Option.map_eq_some_iff.1 h
  exact Value.sizeOf_get?_lt (Option.filter_eq_some_iff.1 hw).1

theorem weight_lt_of_mem_switchCases {line : Nat} {v : Value} {c : Case Seed} {t : Seed}
    (hc : c ∈ switchCases line v) (h : t ∈ c.test.toList ++ c.consequent) :
    t.weight < sizeOf v := by
  obtain ⟨w, hw, rfl⟩ := List.mem_map.1 hc
  have hlt := sizeOf_lt_of_mem_itemsUnder (List.mem_filter.1 hw).1
  rcases List.mem_append.1 h with h | h
  · have := weight_lt_of_part? (Option.mem_toList.1 h)
    omega
  · have := weight_lt_of_mem_ofValues (fun _ hx => sizeOf_lt_of_mem_itemsUnder hx) h
    omega

/-- What is due in a value is made of something smaller, so making nodes ends. -/
theorem weight_lt_of_mem_constructOf {line : Nat} {v : Value} {t : Seed}
    (h : t ∈ (constructOf line v).children) : t.weight < sizeOf v := by
  have hchildren {t : Seed} (h : t ∈ ofValues line (orderedChildNodes line v)) :
      t.weight < sizeOf v :=
    weight_lt_of_mem_ofValues (fun _ hx => sizeOf_lt_of_mem_orderedChildNodes hx) h
  have hunder {t : Seed} {key : String} (h : t ∈ ofValues line (valuesUnder v key)) :
      t.weight < sizeOf v :=
    weight_lt_of_mem_ofValues (fun _ hx => sizeOf_lt_of_mem_valuesUnder hx) h
  unfold constructOf at h
  split at h
  · simp only [Construct.children, List.mem_append, List.mem_singleton] at h
    rcases h with ((h | h) | h) | rfl
    · exact hunder h
    · exact hunder h
    · exact hunder h
    · exact weight_part_lt ..
  · simp only [Construct.children, List.mem_cons, Option.mem_toList] at h
    rcases h with rfl | rfl | h
    · exact weight_part_lt ..
    · exact weight_part_lt ..
    · exact weight_lt_of_part? h
  · simp only [Construct.children, List.mem_cons, List.mem_flatMap] at h
    rcases h with rfl | ⟨c, hc, h⟩
    · exact weight_part_lt ..
    · exact weight_lt_of_mem_switchCases hc h
  · rcases Construct.mem_children_loop.1 h with rfl | h
    · exact weight_part_lt ..
    · obtain ⟨key, _, hk⟩ := List.mem_filterMap.1 h
      exact weight_lt_of_part? hk
  · exact hchildren h
  · exact hchildren h
  · exact hchildren h

theorem weight_lt_of_mem_children {s t : Seed} (h : t ∈ s.construct.children) :
    t.weight < s.weight := by
  unfold construct at h
  split at h
  · simp [Construct.children] at h
  · rename_i v hv
    have := weight_lt_of_mem_constructOf h
    simpa [weight, hv] using this

/-- The node that is due. -/
def node (s : Seed) : Node :=
  .spanning s.line s.endLine <| s.construct.mapParts fun t h =>
    have := weight_lt_of_mem_children h
    t.node
termination_by s.weight

/-- A node is made of the nodes of its parts. -/
theorem node_eq (s : Seed) : s.node = .spanning s.line s.endLine (s.construct.map node) := by
  rw [node, Construct.mapParts_eq_map]

end Seed

/-- The script whose root a value is. -/
def Program.ofValue (v : Value) (filename : String) : Except SyntaxFault Program :=
  if typeName? v = some "Program" then
    match (v.get? "body").bind Value.items? with
    | none => .error (.noBody filename)
    | some items =>
      let line := (startLine? v).getD 1
      .ok ⟨(Seed.ofValues line items).map Seed.node⟩
  else .error (.notProgram filename)

/-- The script that a tree text spells out. `detail` is what the parser of JSON says of a text
    that it does not take; without it a fault says no more than that there is one. -/
def Program.ofText (text : String) (filename : String)
    (detail : String → Option String := fun _ => none) : Except SyntaxFault Program :=
  match Value.ofString? text with
  | none => .error (.notJson filename (detail text))
  | some v => Program.ofValue v filename

end Coverage.Script
