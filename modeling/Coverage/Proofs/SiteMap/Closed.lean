/-
  Coverage.Proofs.SiteMap.Closed

  The site map of a script is closed: every line that it mentions is a line that runs.

  Lines come from a walk that enters functions; candidates, body lines and the line after a
  loop come from walks that do not.  A walk that stays out of functions finds no line that
  the other one misses (`mem_lines_everything`), and every node that is met lies inside the
  script with what follows it (`Within`), so whatever a node contributes to a map is among
  the lines of the script: one lemma for exits, one for functions.  Numbering and sorting
  change neither.
-/

import Coverage.Proofs.SiteMap.Regular
import Coverage.Proofs.Text.ByteOrder
import Mathlib.Data.List.Induction

namespace Coverage.Script

/-! ## Lines that run -/

/-- What a child executes its node executes. -/
theorem mem_lines_of_child {n c : Node} {l : Nat} (hc : c ∈ n.children)
    (h : l ∈ c.lines .everything) : l ∈ n.lines .everything := by
  rw [Node.lines_eq, if_neg (by simp)]
  exact List.mem_append_right _ (List.mem_flatMap.2 ⟨c, hc, h⟩)

/-- What a node executes by itself it executes. -/
theorem mem_lines_of_own {n : Node} {l : Nat} (h : l ∈ n.ownLines) :
    l ∈ n.lines .everything := by
  rw [Node.lines_eq, if_neg (by simp)]
  exact List.mem_append_left _ h

/-- What runs together with a node runs. -/
theorem mem_lines_everything {n : Node} {l : Nat} (h : l ∈ n.lines .sameCall) :
    l ∈ n.lines .everything := by
  -- The walk that leaves functions out takes the same turns wherever it goes on.
  induction n using Node.induct with
  | step n ih =>
    rw [Node.lines_eq] at h
    split at h
    · exact absurd h List.not_mem_nil
    · rcases List.mem_append.1 h with hown | hinside
      · exact mem_lines_of_own hown
      · obtain ⟨c, hc, hl⟩ := List.mem_flatMap.1 hinside
        exact mem_lines_of_child hc (ih c hc hl)

/-- A set of lines in which some statements run. -/
def RunIn (ls : List Nat) (ns : List Node) : Prop :=
  ∀ n ∈ ns, ∀ l ∈ n.lines .everything, l ∈ ls

variable {ls : List Nat} {ns : List Node}

/-- If a node runs within some lines, its children do. -/
theorem runIn_children {n : Node} (h : ∀ l ∈ n.lines .everything, l ∈ ls) :
    RunIn ls n.children := by
  intro c hc l hl
  exact h l (mem_lines_of_child hc hl)

/-- What nodes execute in one call they execute. -/
theorem mem_of_mem_linesTogether {l : Nat} (h : RunIn ls ns) (hl : l ∈ linesTogether ns) :
    l ∈ ls := by
  obtain ⟨n, hn, hln⟩ := List.mem_flatMap.1 (LineSet.mem_ofList.1 hl)
  exact h n hn l (mem_lines_everything hln)

/-- So the first line of what follows is one of them. -/
theorem mem_of_mem_firstLine? {l : Nat} (h : RunIn ls ns) (hl : l ∈ firstLine? ns) :
    l ∈ ls := by
  obtain ⟨n, hn, hfirst⟩ := List.exists_of_findSome?_eq_some hl
  have halone : RunIn ls [n] := by
    intro m hm
    rw [List.mem_singleton.1 hm]
    exact h n hn
  exact mem_of_mem_linesTogether halone (List.mem_of_head? hfirst)

/-! ## Nodes that are met -/

/-- A node that is met inside a script: its lines are lines of the script, and so is the one
    that runs after it. -/
structure Within (ls : List Nat) (v : Node × Option Nat) : Prop where
  lines : ∀ l ∈ v.1.lines .everything, l ∈ ls
  after : ∀ l ∈ v.2, l ∈ ls

/-- Each member of a sequence is within the lines, and so is what follows it. -/
theorem within_followed {inSequence : Bool} {v : Node × Option Nat} (h : RunIn ls ns)
    (hv : v ∈ followed inSequence ns) : Within ls v := by
  induction ns with
  | nil => exact absurd hv List.not_mem_nil
  | cons n rest ih =>
    have hrest : RunIn ls rest := fun m hm => h m (List.mem_cons_of_mem n hm)
    rw [followed] at hv
    rcases List.mem_cons.1 hv with rfl | hlater
    · refine ⟨h n List.mem_cons_self, ?_⟩
      intro l hl
      -- What runs after a node is looked for among its later siblings only.
      simp only at hl
      split at hl
      · exact mem_of_mem_firstLine? hrest hl
      · cases hl
    · exact ih hrest hlater

/-- What the survey meets below a node is within the lines the node is within. -/
theorem within_visits {v w : Node × Option Nat} (h : Within ls v) (hw : w ∈ visits v) :
    Within ls w := by
  obtain ⟨n, after⟩ := v
  induction n using Node.induct generalizing after with
  | step n ih =>
    rw [visits_eq] at hw
    rcases List.mem_cons.1 hw with rfl | hinside
    · exact h
    · obtain ⟨⟨c, next⟩, hc, hwc⟩ := List.mem_flatMap.1 hinside
      exact ih c (mem_of_mem_followed hc) next (within_followed (runIn_children h.lines) hc) hwc

/-- All that the survey meets is within the lines of the script. -/
theorem Program.within_visits {p : Program} {v : Node × Option Nat} (hv : v ∈ p.visits) :
    Within (p.body.flatMap (Node.lines .everything)) v := by
  have hbody : RunIn (p.body.flatMap (Node.lines .everything)) p.body := by
    intro n hn l hl
    exact List.mem_flatMap.2 ⟨n, hn, hl⟩
  obtain ⟨w, hw, hvw⟩ := List.mem_flatMap.1 hv
  exact Script.within_visits (within_followed hbody hw) hvw

/-! ## What a node contributes -/

/-- The candidates of an exit are lines that run, and not the decision. -/
theorem candidates_closed {line l : Nat} (h : RunIn ls ns) (hl : l ∈ candidates line ns) :
    l ∈ ls ∧ l ≠ line := by
  obtain ⟨htogether, hne⟩ := List.mem_filter.1 hl
  exact ⟨mem_of_mem_linesTogether h htogether, by simpa using hne⟩

/-- So are those of the labels of a switch, by induction from the last one to the first. -/
theorem switchCandidates_closed {line l : Nat} {cases : List (Case Node)}
    (h : ∀ c ∈ cases, RunIn ls c.consequent) {cs : List Nat}
    (hcs : cs ∈ switchCandidates line cases) (hl : l ∈ cs) : l ∈ ls ∧ l ≠ line := by
  induction cases generalizing cs with
  | nil => exact absurd hcs List.not_mem_nil
  | cons c rest ih =>
    have hlater : ∀ {ds : List Nat}, ds ∈ switchCandidates line rest → l ∈ ds →
        l ∈ ls ∧ l ≠ line := fun hds hlds =>
      ih (fun d hd => h d (List.mem_cons_of_mem c hd)) hds hlds
    rw [switchCandidates] at hcs
    split at hcs
    · rcases List.mem_cons.1 hcs with rfl | hrest
      · -- A label without statements has the candidates of the one it falls through to.
        cases hhead : (switchCandidates line rest).head? with
        | none =>
          rw [hhead] at hl
          exact absurd hl List.not_mem_nil
        | some ds =>
          rw [hhead] at hl
          exact hlater (List.mem_of_head? hhead) hl
      · exact hlater hrest hl
    · rcases List.mem_cons.1 hcs with rfl | hrest
      · exact candidates_closed (h c List.mem_cons_self) hl
      · exact hlater hrest hl

/-- An exit whose decision and candidates are lines of a set, the decision not being one of
    the candidates. -/
structure ClosedExit (ls : List Nat) (line : Nat) (cs : List Nat) : Prop where
  decision : line ∈ ls
  inside : ∀ l ∈ cs, l ∈ ls
  apart : line ∉ cs

theorem closedExit_of {line : Nat} {cs : List Nat} (hline : line ∈ ls)
    (h : ∀ l ∈ cs, l ∈ ls ∧ l ≠ line) : ClosedExit ls line cs where
  decision := hline
  inside := fun l hl => (h l hl).1
  apart := fun hl => (h line hl).2 rfl

/-- The exits of a node are decided on lines that run, and told by lines that run. -/
theorem exits_closed {v : Node × Option Nat} (h : Within ls v) {x : Nat × List Nat}
    (hx : x ∈ v.1.exits v.2) : ClosedExit ls x.1 x.2 := by
  obtain ⟨⟨line, endLine, construct⟩, after⟩ := v
  have hown : ∀ l ∈ Node.ownLines ⟨line, endLine, construct⟩, l ∈ ls := fun l hl =>
    h.lines l (mem_lines_of_own hl)
  have hparts : ∀ c ∈ construct.children, RunIn ls [c] := by
    intro c hc m hm
    rw [List.mem_singleton.1 hm]
    exact runIn_children h.lines c hc
  -- Only conditionals, switches and loops decide.
  cases construct with
  | conditional test consequent alternate =>
    obtain ⟨body, hbody, rfl⟩ := List.mem_map.1 hx
    have hpart : body ∈ (Construct.conditional test consequent alternate).children :=
      List.mem_cons_of_mem test hbody
    apply closedExit_of (hown line List.mem_cons_self)
    exact fun l hl => candidates_closed (hparts body hpart) hl
  | switch discriminant cases =>
    obtain ⟨cs, hcs, rfl⟩ := List.mem_map.1 hx
    have hstatements : ∀ c ∈ cases, RunIn ls c.consequent := by
      intro c hc m hm
      apply hparts m ?_ m List.mem_cons_self
      exact List.mem_cons_of_mem _ (List.mem_flatMap.2 ⟨c, hc, List.mem_append_right _ hm⟩)
    apply closedExit_of (hown line List.mem_cons_self)
    exact fun l hl => switchCandidates_closed hstatements hcs hl
  | loop form head body =>
    have hpart : body ∈ (Construct.loop form head body).children :=
      Construct.mem_children_loop.2 (.inl rfl)
    cases form with
    | testLast =>
      have htest : Node.testLine ⟨line, endLine, .loop .testLast head body⟩ head ∈ ls :=
        hown _ (List.mem_cons_of_mem _ List.mem_cons_self)
      rcases List.mem_cons.1 hx with rfl | hleave
      · apply closedExit_of htest
        exact fun l hl => candidates_closed (hparts body hpart) hl
      · rw [List.mem_singleton.1 hleave]
        apply closedExit_of htest
        intro l hl
        obtain ⟨hafter, hne⟩ := List.mem_filter.1 hl
        exact ⟨h.after l (Option.mem_toList.1 hafter), by simpa using hne⟩
    | counted | overKeys | overItems | testFirst =>
      rw [List.mem_singleton.1 hx]
      apply closedExit_of (hown line List.mem_cons_self)
      exact fun l hl => candidates_closed (hparts body hpart) hl
  | function form name params body => exact absurd hx List.not_mem_nil
  | block cs => exact absurd hx List.not_mem_nil
  | statement cs => exact absurd hx List.not_mem_nil
  | expression cs => exact absurd hx List.not_mem_nil

/-- The body of a function begins on a line that runs. -/
theorem function?_closed {v : Node × Option Nat} (h : Within ls v) {d : Definition}
    (hd : v.1.function? = some d) {l : Nat} (hl : l ∈ d.bodyLine) : l ∈ ls := by
  obtain ⟨⟨line, endLine, construct⟩, after⟩ := v
  cases construct with
  | function form name params body =>
    have hbody : body ∈ (Construct.function form name params body).children :=
      List.mem_append_right _ (List.mem_singleton_self body)
    cases hd
    replace hl : l ∈ bodyLine? body := hl
    rw [bodyLine?] at hl
    by_cases hblock : body.isBlock = true
    · rw [if_pos hblock] at hl
      have hrun : RunIn ls [body] := by
        intro m hm
        rw [List.mem_singleton.1 hm]
        exact runIn_children h.lines body hbody
      exact mem_of_mem_linesTogether hrun (List.mem_of_head? hl)
    · -- A concise body is a statement on a line of its own.
      rw [if_neg hblock] at hl
      have hline : body.line = l := Option.some.inj hl
      apply h.lines l
      apply mem_lines_of_own
      show l ∈ if body.isBlock = true then [] else [body.line]
      rw [if_neg hblock, hline]
      exact List.mem_singleton_self l
  | conditional _ _ _ | switch _ _ | loop _ _ _ | block _ | statement _ | expression _ =>
    cases hd

/-! ## Numbering -/

/-- Numbering takes the exits as they were met. -/
theorem mem_numberExits {e : BranchExit} {found : List (Nat × List Nat)} {met : Bag Nat}
    (h : e ∈ numberExits met found) : (e.line, e.candidates) ∈ found := by
  induction found generalizing met with
  | nil => exact absurd h List.not_mem_nil
  | cons p rest ih =>
    rw [numberExits] at h
    rcases List.mem_cons.1 h with rfl | hrest
    · exact List.mem_cons_self
    · exact List.mem_cons_of_mem p (ih hrest)

/-- Numbering takes the functions as they were met. -/
theorem mem_numberFunctions {f : FunctionSpan} {ds : List Definition}
    {met : Bag (Option String × Nat)} (h : f ∈ numberFunctions met ds) :
    ∃ d ∈ ds, d.bodyLine = f.bodyLine := by
  induction ds generalizing met with
  | nil => exact absurd h List.not_mem_nil
  | cons d rest ih =>
    rw [numberFunctions] at h
    rcases List.mem_cons.1 h with rfl | hrest
    · exact ⟨d, List.mem_cons_self, rfl⟩
    · obtain ⟨d', hd', hbody⟩ := ih hrest
      exact ⟨d', List.mem_cons_of_mem d hd', hbody⟩

end Coverage.Script

namespace Coverage.SiteMap

open Script (Program)
open Text.Utf8 (ofString ofString_lt_ofString)

/-! ## The map of a script -/

theorem mem_lines_ofProgram {p : Program} {l : Nat} :
    l ∈ (ofProgram p).lines ↔ l ∈ p.body.flatMap (Script.Node.lines .everything) :=
  LineSet.mem_ofList

/-- The exits of a map mention only its lines. -/
theorem exits_ofProgram_closed {p : Program} {e : BranchExit} (he : e ∈ (ofProgram p).exits) :
    Script.ClosedExit (ofProgram p).lines e.line e.candidates := by
  -- Sorting keeps the exits but for the order of their candidates.
  obtain ⟨d, hd, rfl⟩ := List.mem_map.1 he
  have hfound := Script.mem_numberExits (List.mem_mergeSort.1 hd)
  obtain ⟨v, hv, hx⟩ := List.mem_flatMap.1 hfound
  have hclosed := Script.exits_closed (Program.within_visits hv) hx
  refine ⟨mem_lines_ofProgram.2 hclosed.decision, ?_, ?_⟩
  · intro l hl
    exact mem_lines_ofProgram.2 (hclosed.inside l (LineSet.mem_ofList.1 hl))
  · intro hl
    exact hclosed.apart (LineSet.mem_ofList.1 hl)

/-- The bodies of its functions begin on its lines. -/
theorem bodyLine_ofProgram_closed {p : Program} {f : FunctionSpan}
    (hf : f ∈ (ofProgram p).functions) {l : Nat} (hl : l ∈ f.bodyLine) :
    l ∈ (ofProgram p).lines := by
  obtain ⟨d, hd, hbody⟩ := Script.mem_numberFunctions (List.mem_mergeSort.1 hf)
  obtain ⟨v, hv, hvd⟩ := List.mem_filterMap.1 hd
  rw [← hbody] at hl
  exact mem_lines_ofProgram.2 (Script.function?_closed (Program.within_visits hv) hvd hl)

/-! ## The largest line -/

/-- Every line that a map mentions. -/
def mentioned (m : SiteMap) : List Nat :=
  m.lines ++ (m.exits.flatMap fun e => e.line :: e.candidates)
    ++ m.functions.flatMap fun f => f.line :: f.endLine :: f.bodyLine.toList

/-- The last of some lines in ascending order is the largest. -/
theorem le_getLast {ls : List Nat} (h : ls.Pairwise (· < ·)) {l : Nat} (hl : l ∈ ls) :
    l ≤ ls.getLast?.getD 0 := by
  induction ls using List.reverseRecOn with
  | nil => exact absurd hl List.not_mem_nil
  | append_singleton before last ih =>
    rw [List.getLast?_concat, Option.getD_some]
    rcases List.mem_append.1 hl with hbefore | hlast
    · exact Nat.le_of_lt ((List.pairwise_append.1 h).2.2 l hbefore last List.mem_cons_self)
    · exact Nat.le_of_eq (List.mem_singleton.1 hlast)

/-- The largest line is one, if lines ascend, functions end where they begin or later, and
    body lines are lines of the map. -/
theorem le_maxLine {m : SiteMap} (hlines : m.lines.Pairwise (· < ·))
    (hspans : ∀ f ∈ m.functions, f.line ≤ f.endLine)
    (hbodies : ∀ f ∈ m.functions, ∀ l ∈ f.bodyLine, l ∈ m.lines) {l : Nat}
    (hl : l ∈ m.mentioned) : l ≤ m.maxLine := by
  have hin : ∀ k ∈ m.lines, k ≤ m.maxLine := by
    intro k hk
    have hlast : k ≤ m.lines.getLast?.getD 0 := le_getLast hlines hk
    show k ≤ max (max _ _) _
    omega
  have hend : ∀ f ∈ m.functions, f.endLine ≤ m.maxLine := by
    intro f hf
    have hmax : f.endLine ≤ (m.functions.map FunctionSpan.endLine).foldl max 0 :=
      (le_foldl_max _ 0).2 _ (List.mem_map_of_mem hf)
    show f.endLine ≤ max (max _ _) _
    omega
  rw [mentioned, List.append_assoc] at hl
  rcases List.mem_append.1 hl with hline | hother
  · exact hin l hline
  · rcases List.mem_append.1 hother with hexit | hfunction
    · have hmax : l ≤ (m.exits.flatMap fun e => e.line :: e.candidates).foldl max 0 :=
        (le_foldl_max _ 0).2 l hexit
      show l ≤ max (max _ _) _
      omega
    · obtain ⟨f, hf, hlf⟩ := List.mem_flatMap.1 hfunction
      -- The line of a declaration does not come after the last one of the function.
      rcases List.mem_cons.1 hlf with rfl | hlater
      · exact Nat.le_trans (hspans f hf) (hend f hf)
      · rcases List.mem_cons.1 hlater with rfl | hbody
        · exact hend f hf
        · exact hin l (hbodies f hf l (Option.mem_toList.1 hbody))

/-! ## Every map -/

/-- A canonical map that is closed: it mentions no line but those that run, apart from the
    lines on which functions are declared and end. -/
structure Closed (m : SiteMap) : Prop where
  lines : m.lines.Pairwise (· < ·)
  exits : m.exits.Pairwise fun a b => a.line < b.line ∨ (a.line = b.line ∧ a.index < b.index)
  /-- The exits of a line have the numbers from zero on. -/
  numbered : ∀ line, (exitsOn line m.exits).map BranchExit.index
    = List.range (exitsOn line m.exits).length
  candidates : ∀ e ∈ m.exits, e.candidates.Pairwise (· < ·) ∧ e.line ∉ e.candidates
    ∧ ∀ l ∈ e.candidates, l ∈ m.lines
  decisions : ∀ e ∈ m.exits, e.line ∈ m.lines
  functions : m.functions.Pairwise fun f g => ofString f.key ≤ ofString g.key
  spans : ∀ f ∈ m.functions, f.line ≤ f.endLine
  bodies : ∀ f ∈ m.functions, ∀ l ∈ f.bodyLine, l ∈ m.lines
  canonical : m.canonical = m
  bounded : ∀ l ∈ m.mentioned, l ≤ m.maxLine

/-- The site map of every script is canonical and closed. -/
theorem closed_ofProgram (p : Program) : (ofProgram p).Closed := by
  have hregular := regular_ofProgram p
  have hlines : (ofProgram p).lines.Pairwise (· < ·) := pairwise_canonical_lines _
  have hbodies : ∀ f ∈ (ofProgram p).functions, ∀ l ∈ f.bodyLine, l ∈ (ofProgram p).lines :=
    fun f hf l hl => bodyLine_ofProgram_closed hf hl
  refine
    { lines := hlines
      exits := hregular.pairwise_exits
      numbered := hregular.numbered
      candidates := fun e he => ?_
      decisions := fun e he => (exits_ofProgram_closed he).decision
      functions := ?_
      spans := hregular.spans
      bodies := hbodies
      canonical := hregular.canonical
      bounded := fun l hl => le_maxLine hlines hregular.spans hbodies hl }
  · have hclosed := exits_ofProgram_closed he
    exact ⟨pairwise_candidates_canonical he, hclosed.apart, hclosed.inside⟩
  · refine (pairwise_canonical_functions _).imp ?_
    intro f g hfg
    -- Strings are ordered as their bytes are.
    rw [← List.not_lt, ofString_lt_ofString]
    exact String.not_lt.2 (functionLE_iff.1 hfg)

end Coverage.SiteMap
