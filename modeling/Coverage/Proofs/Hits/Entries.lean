/-
  Coverage.Proofs.Hits.Entries

  Entries into functions, as an engine reports them.

  The search for the function of an entry finds none only if there is none to enter, and else the
  one that `Chosen` tells; the ledger then counts one call of it and nothing else
  (`recordEntry_entered`).  Where the nodes of a script lie inside each other a body begins within
  its function, so a call is counted exactly for the lines of functions, and for one around the
  line (`recordEntry_nested`).
-/

import Coverage.Proofs.Hits.Charges
import Coverage.Proofs.SiteMap.Nested

namespace Coverage.Ledger

variable {l : Ledger} {name : Option String} {line slot : Nat} {f : FunctionSpan}

/-! ## One entry -/

/-- An entry that finds no function leaves the ledger as it is. -/
theorem recordEntry_of_none (h : l.slotEntered? name line = none) :
    l.recordEntry name line = (none, l) := by
  unfold recordEntry
  rw [h]

/-- An entry that finds a function is answered with its key, and counts in its slot. -/
theorem recordEntry_of_some (h : l.slotEntered? name line = some slot)
    (hf : l.map.functions[slot]? = some f) :
    l.recordEntry name line
      = (some f.key, { l with counters := l.counters.recordSlot slot }) := by
  unfold recordEntry
  rw [h]
  simp only [hf, Option.map_some]

/-- A call counts in the slot that was found and in no other. -/
theorem Complete.functionHits_recordSlot (h : l.Complete)
    (hslot : l.slotEntered? name line = some slot) (k : Nat) :
    (l.counters.recordSlot slot).functionHits k
      = l.counters.functionHits k + if k = slot then 1 else 0 :=
  l.counters.functionHits_recordSlot (h ▸ slotEntered?_lt hslot) k

/-- What an entry is answered with, and what it leaves of the ledger. -/
inductive Entered (l : Ledger) (name : Option String) (line : Nat) :
    Option String × Ledger → Prop
  | nobody (h : ∀ slot f, ¬Entrant l.map line slot f) : Entered l name line (none, l)
  | called {slot : Nat} {f : FunctionSpan} {next : Ledger} (h : Chosen l.map name line slot f)
      (hcounts : ∀ k, next.counters.functionHits k
        = l.counters.functionHits k + if k = slot then 1 else 0)
      (hrest : next = { l with counters.functions := next.counters.functions }) :
      Entered l name line (some f.key, next)

/-- An entry is charged to the function that the search finds, if it finds one. -/
theorem Complete.entered (h : l.Complete) (name : Option String) (line : Nat) :
    Entered l name line (l.recordEntry name line) := by
  cases hslot : l.slotEntered? name line with
  | none =>
    rw [recordEntry_of_none hslot]
    exact .nobody (not_entrant_of_slotEntered? hslot)
  | some slot =>
    obtain ⟨f, hf⟩ := chosen_of_slotEntered? hslot
    rw [recordEntry_of_some hslot hf.eligible.entrant.getElem?]
    exact .called hf (h.functionHits_recordSlot hslot) rfl

/-- At any time an entry is answered with no function, and counted nowhere, if there is none to
    enter; otherwise it counts one call of the function that is chosen, and nothing else. -/
theorem recordEntry_entered (m : SiteMap) (xs : List Charge) (name : Option String) (line : Nat) :
    Entered (charged m xs) name line ((charged m xs).recordEntry name line) :=
  (complete_charged m xs).entered name line

/-! ## Scripts whose nodes nest -/

open Script (Program Node Construct Definition)
open SiteMap (ofProgram contains_bodyLine perm_functions)

/-- A function that may be entered at a line of a nested script is around the line. -/
theorem Entrant.contains {p : Program} (hp : p.Nested) (h : Entrant (ofProgram p) line slot f) :
    f.contains line = true := by
  cases h with
  | begins hf hbody => exact contains_bodyLine hp (List.mem_of_getElem? hf) hbody
  | around _ _ hline => exact hline

/-- Where a function is around a line, there is one to enter. -/
theorem exists_entrant {m : SiteMap} (hf : f ∈ m.functions) (hline : f.contains line = true) :
    ∃ k g, Entrant m line k g := by
  by_cases hbegins : ∃ g ∈ m.functions, g.bodyLine = some line
  · obtain ⟨g, hg, hbody⟩ := hbegins
    obtain ⟨k, hk⟩ := List.mem_iff_getElem?.1 hg
    exact ⟨k, g, .begins hk hbody⟩
  · -- No body begins on the line, so those around it are to be entered.
    obtain ⟨k, hk⟩ := List.mem_iff_getElem?.1 hf
    exact ⟨k, f, .around (fun g hg hbody => hbegins ⟨g, hg, hbody⟩) hk hline⟩

/-- On a script whose nodes nest, an entry counts a call just if a function is around its line;
    the function that is called is around the line.  The body of every function begins within
    it. -/
theorem recordEntry_nested {p : Program} (hp : p.Nested) (xs : List Charge)
    (name : Option String) (line : Nat) :
    (((charged (ofProgram p) xs).recordEntry name line).1 = none
        ↔ ∀ f ∈ (ofProgram p).functions, ¬f.contains line = true)
      ∧ (∀ key next, (charged (ofProgram p) xs).recordEntry name line = (some key, next) →
        ∃ slot f, (ofProgram p).functions[slot]? = some f ∧ f.key = key
          ∧ f.contains line = true
          ∧ ∀ k, next.counters.functionHits k
            = (charged (ofProgram p) xs).counters.functionHits k + if k = slot then 1 else 0)
      ∧ ∀ f ∈ (ofProgram p).functions, ∀ l ∈ f.bodyLine, f.contains l = true := by
  -- The map of a ledger is not changed by charges, so who may enter is read off the script.
  have hmap : (charged (ofProgram p) xs).map = ofProgram p := map_charged _ xs
  have hentered := (complete_charged (ofProgram p) xs).entered name line
  generalize (charged (ofProgram p) xs).recordEntry name line = result at hentered ⊢
  cases hentered with
  | nobody hnone =>
    rw [hmap] at hnone
    refine ⟨iff_of_true rfl fun f hf hline => ?_, fun key next h => ?_,
      fun f hf l hl => contains_bodyLine hp hf hl⟩
    · -- A span around the line would have had a function to enter.
      obtain ⟨k, g, hg⟩ := exists_entrant hf hline
      exact hnone k g hg
    · cases h
  | @called slot f next hchosen hcounts _ =>
    have hentrant := hchosen.eligible.entrant
    rw [hmap] at hentrant
    have hf := hentrant.getElem?
    have hline := hentrant.contains hp
    refine ⟨iff_of_false (Option.some_ne_none _) fun hnone => ?_, fun key next' h => ?_,
      fun f hf l hl => contains_bodyLine hp hf hl⟩
    · exact hnone f (List.mem_of_getElem? hf) hline
    · cases h
      exact ⟨slot, f, hf, rfl, hline, hcounts⟩

/-- A function that defines a callback without statements and then goes on. -/
def callback : Program :=
  ⟨[⟨1, 6, .function .declaration (some "outer") []
    ⟨1, 6, .block [⟨2, 4, .statement [⟨2, 4, .function .expression none [] ⟨2, 4, .block []⟩⟩]⟩,
      ⟨5, 5, .statement []⟩]⟩⟩]⟩

theorem definitions_callback : callback.definitions
    = [⟨some "outer", 1, 6, some 2⟩, ⟨none, 2, 4, none⟩] := by
  simp [Program.definitions, Program.nodes, callback, Node.preorder_eq, Node.children,
    Construct.children, Node.function?, Script.bodyLine?, Node.isBlock, Construct.isBlock,
    Script.linesTogether, Node.lines_eq, Node.isFunction, Node.ownLines, LineSet.ofList,
    LineSet.insert, List.filterMap_cons]

/-- The map has one function for each of the two. -/
theorem mem_functions_callback {f : FunctionSpan} : f ∈ (ofProgram callback).functions
    ↔ f = ⟨"outer:1:0", 1, 6, some 2⟩ ∨ f = ⟨"(anonymous):2:0", 2, 4, none⟩ := by
  have hspans : (ranked Definition.label callback.definitions).map (fun x => x.1.span x.2)
      = [⟨"outer:1:0", 1, 6, some 2⟩, ⟨"(anonymous):2:0", 2, 4, none⟩] := by
    rw [definitions_callback]
    decide +kernel
  rw [(perm_functions callback).mem_iff, hspans, List.mem_cons, List.mem_singleton]

/-- Each node lies in the span of the node around it. -/
theorem nested_callback : callback.Nested := by
  have hnodes : ∀ n ∈ callback.nodes, n.line ≤ n.endLine
      ∧ ∀ c ∈ n.children, n.line ≤ c.line ∧ c.endLine ≤ n.endLine := by
    simp [Program.nodes, callback, Node.preorder_eq, Node.children, Construct.children]
  intro n hn
  obtain ⟨hordered, hparts⟩ := hnodes n (Program.mem_nodes.2 hn)
  exact ⟨hordered, fun c hpart => hparts c (Construct.part_iff.1 hpart)⟩

theorem recordEntry_nested_callback :
    callback.Nested
      ∧ (∃ key next, (charged (ofProgram callback) [.line 2]).recordEntry none 3 = (some key, next)
        ∧ ∃ f ∈ (ofProgram callback).functions, f.key = key ∧ f.contains 3 = true)
      ∧ ((charged (ofProgram callback) [.line 2]).recordEntry (some "outer") 7).1 = none := by
  refine ⟨nested_callback, ?_, ?_⟩
  · obtain ⟨hnone, hsome, -⟩ := recordEntry_nested nested_callback [.line 2] none 3
    cases hrecord : (charged (ofProgram callback) [.line 2]).recordEntry none 3 with
    | mk answer next =>
      cases answer with
      | none =>
        -- The callback is around the line, so the entry is not left out.
        have hinside := hnone.1 (by rw [hrecord]) _ (mem_functions_callback.2 (.inr rfl))
        exact absurd (by decide) hinside
      | some key =>
        obtain ⟨slot, f, hf, hkey, hline, -⟩ := hsome key next hrecord
        exact ⟨key, next, rfl, f, List.mem_of_getElem? hf, hkey, hline⟩
  · refine (recordEntry_nested nested_callback [.line 2] (some "outer") 7).1.2 fun f hf => ?_
    rcases mem_functions_callback.1 hf with rfl | rfl
    · decide
    · decide

end Coverage.Ledger
