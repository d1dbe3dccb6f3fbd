/-
  Coverage.Proofs.SiteMap.Functions

  The functions of a site map are those of the tree.

  A survey counts names and lines in a bag as it meets functions, so each function gets the
  number of those before it in preorder that share its name and line (`numberFunctions_eq`).
  The keys made of these numbers differ, except where the text that stands for no name is a name
  on the same line (`nodup_keys_iff`).  Sorting by key loses nothing.
-/

import Coverage.Proofs.Ranking
import Coverage.Proofs.Script.Preorder
import Coverage.Proofs.SiteMap.Canonical
import Coverage.Proofs.SiteMap.Keys
import Coverage.Proofs.Text.ByteOrder
import Mathlib.Data.List.Nodup

namespace Coverage.Script

open FunctionSpan (keyOf keyOf_eq_iff nameText_eq_iff)

/-! ## Functions of a tree -/

namespace Definition

/-- What functions are numbered by. -/
def label (d : Definition) : Option String × Nat :=
  (d.name, d.line)

/-- The entry of a function with a number. It ends on its last line, or where it begins if that
    is later. -/
def span (d : Definition) (index : Nat) : FunctionSpan :=
  ⟨keyOf d.name d.line index, d.line, max d.endLine d.line, d.bodyLine⟩

end Definition

open Definition (label)

/-- The functions of a script, in preorder. -/
def Program.definitions (p : Program) : List Definition :=
  p.nodes.filterMap Node.function?

/-- Whether a function of a name is declared on a line. -/
def Program.Defines (p : Program) (name : Option String) (line : Nat) : Prop :=
  ∃ n, p.Holds n ∧ n.line = line ∧ ∃ form params body, n.construct = .function form name params body

theorem Node.function?_eq_some {n : Node} {d : Definition} : n.function? = some d
    ↔ ∃ form name params body, n.construct = .function form name params body
      ∧ d = ⟨name, n.line, n.endLine, bodyLine? body⟩ := by
  obtain ⟨line, endLine, construct⟩ := n
  cases construct with
  | function form name params body =>
    constructor
    · intro h
      exact ⟨form, name, params, body, rfl, (Option.some.inj h).symm⟩
    · rintro ⟨_, _, _, _, h, rfl⟩
      cases h
      rfl
  | _ => simp [function?]

theorem Program.exists_definition {p : Program} {name : Option String} {line : Nat} :
    (∃ d ∈ p.definitions, label d = (name, line)) ↔ p.Defines name line := by
  constructor
  · rintro ⟨d, hd, hlabel⟩
    obtain ⟨n, hn, hfunction⟩ := List.mem_filterMap.1 hd
    obtain ⟨form, other, params, body, hconstruct, rfl⟩ := Node.function?_eq_some.1 hfunction
    obtain ⟨rfl, rfl⟩ := Prod.mk.inj hlabel
    exact ⟨n, mem_nodes.1 hn, rfl, form, params, body, hconstruct⟩
  · rintro ⟨n, hn, rfl, form, params, body, hconstruct⟩
    exact ⟨_, List.mem_filterMap.2 ⟨n, mem_nodes.2 hn,
      Node.function?_eq_some.2 ⟨form, name, params, body, hconstruct, rfl⟩⟩, rfl⟩

theorem Program.filterMap_visits (p : Program) :
    (p.visits.filterMap fun v => v.1.function?) = p.definitions := by
  rw [definitions, ← map_fst_visits, List.filterMap_map]
  rfl

/-! ## Numbers -/

theorem numberFunctions_eq (ds : List Definition) :
    numberFunctions .empty ds = (ranked label ds).map fun x => x.1.span x.2 := by
  rw [← numberWith_eq]
  generalize Bag.empty = met
  induction ds generalizing met with
  | nil => rfl
  | cons d rest ih =>
    rw [numberFunctions, numberWith, ih]
    rfl

/-- Keys differ unless a function without a name and one whose name looks like that share a
    line. -/
theorem nodup_keys_iff {ds : List Definition} :
    ((ranked label ds).map fun x => keyOf x.1.name x.1.line x.2).Nodup
      ↔ ∀ line, ¬((∃ d ∈ ds, label d = (none, line))
        ∧ ∃ d ∈ ds, label d = (some "(anonymous)", line)) := by
  constructor
  · rintro hnodup line ⟨hunnamed, hnamed⟩
    -- The first of each would have one key.
    obtain ⟨d, hd, hlabel⟩ := exists_rank_zero hunnamed
    obtain ⟨d', hd', hlabel'⟩ := exists_rank_zero hnamed
    obtain ⟨hname, hline⟩ := Prod.mk.inj hlabel
    obtain ⟨hname', hline'⟩ := Prod.mk.inj hlabel'
    have hkey : keyOf d.name d.line 0 = keyOf d'.name d'.line 0 :=
      keyOf_eq_iff.2 ⟨nameText_eq_iff.2 (.inr (.inl ⟨hname, hname'⟩)), hline.trans hline'.symm, rfl⟩
    have hsame : (d, 0) = (d', 0) := List.inj_on_of_nodup_map hnodup hd hd' hkey
    rw [(Prod.mk.inj hsame).1, hname'] at hname
    cases hname
  · intro hapart
    rw [List.Nodup, List.pairwise_map]
    refine (pairwise_ranked label ds).imp_of_mem fun {x y} hx hy hlater hkey => ?_
    obtain ⟨htext, hline, hindex⟩ := keyOf_eq_iff.1 hkey
    have hx := mem_of_mem_ranked hx
    have hy := mem_of_mem_ranked hy
    rcases nameText_eq_iff.1 htext with hname | ⟨hnone, hsome⟩ | ⟨hsome, hnone⟩
    · have hlt := hlater (Prod.ext hname hline)
      omega
    · exact hapart x.1.line ⟨⟨x.1, hx, Prod.ext hnone rfl⟩, ⟨y.1, hy, Prod.ext hsome hline.symm⟩⟩
    · exact hapart x.1.line ⟨⟨y.1, hy, Prod.ext hnone hline.symm⟩, ⟨x.1, hx, Prod.ext hsome rfl⟩⟩

end Coverage.Script

namespace Coverage.SiteMap

open FunctionSpan (keyOf)
open Script (Program Definition numberFunctions_eq nodup_keys_iff)
open Text.Utf8 (ofString ofString_lt_ofString)

/-- The functions of a map before they are sorted. -/
theorem perm_functions (p : Program) : (ofProgram p).functions.Perm
    ((ranked Definition.label p.definitions).map fun x => x.1.span x.2) := by
  show (List.mergeSort (Script.numberFunctions .empty _) functionLE).Perm _
  rw [p.filterMap_visits, numberFunctions_eq]
  exact List.mergeSort_perm _ _

/-- The site map of a script has one function for each function anywhere in the tree, numbered
    in preorder among those of its name and line, in order of their keys; it begins and ends where
    its node does, if that does not end before it begins.  The keys differ unless a line has both
    a function without a name and one whose name looks like that. -/
theorem functions_ofProgram (p : Program) :
    (∀ n, n ∈ p.nodes ↔ p.Holds n)
      ∧ (ofProgram p).functions.Perm
        ((ranked Definition.label p.definitions).map fun x => x.1.span x.2)
      ∧ (∀ d ∈ p.definitions, d.line ≤ d.endLine →
        ∀ k, d.span k = ⟨keyOf d.name d.line k, d.line, d.endLine, d.bodyLine⟩)
      ∧ (ofProgram p).functions.Pairwise (fun f g => ofString f.key ≤ ofString g.key)
      ∧ (((ofProgram p).functions.map FunctionSpan.key).Nodup
        ↔ ∀ line, ¬(p.Defines none line ∧ p.Defines (some "(anonymous)") line)) := by
  have hperm := perm_functions p
  refine ⟨fun n => Program.mem_nodes, hperm, ?_, ?_, ?_⟩
  · intro d _ hends k
    rw [Definition.span, Nat.max_eq_left hends]
  · refine (pairwise_canonical_functions _).imp fun {f g} hfg => ?_
    rw [← List.not_lt, ofString_lt_ofString]
    exact String.not_lt.2 (functionLE_iff.1 hfg)
  · rw [(hperm.map FunctionSpan.key).nodup_iff, List.map_map]
    simp only [← Program.exists_definition]
    exact nodup_keys_iff

end Coverage.SiteMap
