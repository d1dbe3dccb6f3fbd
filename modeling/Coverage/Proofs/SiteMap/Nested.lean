/-
  Coverage.Proofs.SiteMap.Nested

  Scripts whose nodes lie inside each other.

  If every part of a node lies within its lines, so does every node that is reached from it
  (`Node.Nested.span_of_reaches`, by induction on the way there) and every line that one of these
  executes.  So the line on which the body of a function begins is one of the function's own
  (`contains_bodyLine`).
-/

import Coverage.Proofs.SiteMap.InReach

namespace Coverage.Script

/-! ## Nodes within nodes -/

/-- A node ends where it begins or later, and its parts lie within its lines. -/
structure Node.SpansParts (n : Node) : Prop where
  ordered : n.line ≤ n.endLine
  within : ∀ c, n.construct.Part c → n.line ≤ c.line ∧ c.endLine ≤ n.endLine

/-- A node and all nodes inside it have their parts within their lines. -/
def Node.Nested (n : Node) : Prop :=
  ∀ m, n.Reaches .everything m → m.SpansParts

/-- All nodes of a script have their parts within their lines. -/
def Program.Nested (p : Program) : Prop :=
  ∀ n, p.Holds n → n.SpansParts

/-- What is reached without entering functions is reached. -/
theorem Node.Reaches.everything {reach : Reach} {n m : Node} (h : n.Reaches reach m) :
    n.Reaches .everything m := by
  induction h with
  | self n => exact .self n
  | through _ hpart _ ih => exact .through (fun h => by cases h) hpart ih

theorem Node.Nested.of_reaches {reach : Reach} {n m : Node} (h : n.Nested)
    (hm : n.Reaches reach m) : m.Nested :=
  fun k hk => h k (hm.everything.trans hk)

theorem Program.Nested.node {p : Program} (h : p.Nested) {n : Node} (hn : p.Holds n) :
    n.Nested := by
  obtain ⟨root, hroot, hreach⟩ := hn
  exact fun m hm => h m ⟨root, hroot, hreach.trans hm⟩

/-! ## Lines within nodes -/

/-- What is reached from a node lies within its lines. -/
theorem Node.Nested.span_of_reaches {reach : Reach} {n m : Node} (h : n.Nested)
    (hm : n.Reaches reach m) : n.line ≤ m.line ∧ m.endLine ≤ n.endLine := by
  induction hm with
  | self n => exact ⟨Nat.le_refl _, Nat.le_refl _⟩
  | @through n c m henter hpart hcm ih =>
    obtain ⟨hbegin, hend⟩ := (h n (.self n)).within c hpart
    obtain ⟨hbegin', hend'⟩ := ih (h.of_reaches (.through henter hpart (.self c)))
    exact ⟨Nat.le_trans hbegin hbegin', Nat.le_trans hend' hend⟩

theorem Node.Nested.span_of_executes {n : Node} {l : Nat} (h : n.Nested) (hl : n.Executes l) :
    n.line ≤ l ∧ l ≤ n.endLine := by
  have hself := h n (.self n)
  -- All that executes does so on its first line, but for the last test of a loop.
  cases hl with
  | @lastTest line endLine head body =>
    cases head with
    | nil => exact ⟨hself.ordered, Nat.le_refl _⟩
    | cons test rest =>
      -- The test is a part of the loop that ends where it begins or later.
      have hpart : (Construct.loop .testLast (test :: rest) body).Part test :=
        .head List.mem_cons_self
      obtain ⟨hbegin, hend⟩ := hself.within test hpart
      have htest := h test (.through (fun hout => by cases hout) hpart (.self test))
      exact ⟨hbegin, Nat.le_trans htest.ordered hend⟩
  | _ => exact ⟨Nat.le_refl _, hself.ordered⟩

theorem Node.Nested.span_of_runs {n : Node} {l : Nat} (h : n.Nested) (hl : n.RunsTogether l) :
    n.line ≤ l ∧ l ≤ n.endLine := by
  obtain ⟨m, hm, hexecutes⟩ := hl
  obtain ⟨hbegin, hend⟩ := h.span_of_reaches hm
  obtain ⟨hbegin', hend'⟩ := (h.of_reaches hm).span_of_executes hexecutes
  exact ⟨Nat.le_trans hbegin hbegin', Nat.le_trans hend' hend⟩

/-- The line on which a body begins is one of its lines. -/
theorem Node.Nested.span_of_beginsOn {body : Node} (h : body.Nested) {first : Option Nat} {l : Nat}
    (hfirst : BeginsOn body first) (hl : l ∈ first) : body.line ≤ l ∧ l ≤ body.endLine := by
  cases hfirst with
  | concise _ =>
    obtain rfl := Option.some.inj hl
    exact ⟨Nat.le_refl _, (h body (.self body)).ordered⟩
  | first _ hruns _ =>
    obtain rfl := Option.some.inj hl
    exact h.span_of_runs hruns
  | idle _ _ => cases hl

end Coverage.Script

namespace Coverage.SiteMap

open Script (Program Definition)

/-! ## Functions -/

/-- Every function of the map of a script is that of a node. -/
theorem exists_node {p : Program} {f : FunctionSpan} (hf : f ∈ (ofProgram p).functions) :
    ∃ n d k, p.Holds n ∧ n.function? = some d ∧ f = d.span k := by
  obtain ⟨x, hx, rfl⟩ := List.mem_map.1 ((perm_functions p).mem_iff.1 hf)
  obtain ⟨n, hn, hfunction⟩ := List.mem_filterMap.1 (mem_of_mem_ranked hx)
  exact ⟨n, x.1, x.2, Program.mem_nodes.1 hn, hfunction, rfl⟩

/-- The body of a function begins within the function. -/
theorem contains_bodyLine {p : Program} (hp : p.Nested) {f : FunctionSpan}
    (hf : f ∈ (ofProgram p).functions) {l : Nat} (hl : l ∈ f.bodyLine) : f.contains l = true := by
  obtain ⟨n, d, k, hn, hfunction, rfl⟩ := exists_node hf
  obtain ⟨form, name, params, body, hconstruct, rfl⟩ := Script.Node.function?_eq_some.1 hfunction
  have hnested := hp.node hn
  have hpart : n.construct.Part body := hconstruct ▸ .functionBody
  obtain ⟨hbegin, hend⟩ := (hp n hn).within body hpart
  have hbody : body.Nested :=
    hnested.of_reaches (.through (fun h : Script.Reach.everything = _ => by cases h) hpart
      (.self body))
  obtain ⟨hfirst, hlast⟩ := hbody.span_of_beginsOn (Script.beginsOn_bodyLine? body) hl
  refine FunctionSpan.contains_iff.2 ⟨Nat.le_trans hbegin hfirst, ?_⟩
  exact Nat.le_trans (Nat.le_trans hlast hend) (Nat.le_max_left _ _)

end Coverage.SiteMap
