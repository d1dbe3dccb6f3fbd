/-
  Coverage.Proofs.SiteMap.NormalForm

  The canonical form of a site map is a normal form.

  It holds what the map holds, in order (`inOrder_canonical`, `rearranges_canonical`), and
  members that are ordered by the same thing keep the order in which they came
  (`keepsTies_canonical`).  Where there are no such members a sort does not see the order it
  was given (`mergeSort_eq_of_perm`), and a set of lines sees neither order nor repetition; so
  all rearrangements of a map whose exits and functions can be told apart have one canonical
  form.
-/

import Coverage.Proofs.Ranking
import Coverage.Proofs.SiteMap.Canonical
import Coverage.Proofs.Text.ByteOrder
import Mathlib.Data.List.Forall2
import Mathlib.Data.List.Nodup

namespace Coverage

/-! ## Sorting -/

/-- The order in which members come does not matter to a sort that tells them apart. -/
theorem mergeSort_eq_of_perm {α : Type} {le : α → α → Bool} {as bs : List α}
    (htrans : ∀ a b c, le a b → le b c → le a c) (htotal : ∀ a b, le a b || le b a)
    (hapart : ∀ a ∈ as, ∀ b ∈ as, le a b → le b a → a = b) (h : as.Perm bs) :
    as.mergeSort le = bs.mergeSort le := by
  have hsorted : (as.mergeSort le).Perm (bs.mergeSort le) :=
    (List.mergeSort_perm as le).trans (h.trans (List.mergeSort_perm bs le).symm)
  refine hsorted.eq_of_pairwise (fun a b ha hb hab hba => ?_)
    (List.pairwise_mergeSort htrans htotal as) (List.pairwise_mergeSort htrans htotal bs)
  exact hapart a (List.mem_mergeSort.1 ha) b (h.mem_iff.2 (List.mem_mergeSort.1 hb)) hab hba

namespace BranchExit

/-- An exit again, its candidates in any order and any number of times. -/
structure Same (e f : BranchExit) : Prop where
  line : f.line = e.line
  index : f.index = e.index
  candidates : ∀ l, l ∈ f.candidates ↔ l ∈ e.candidates

/-- Putting its candidates in order leaves an exit the same. -/
theorem same_ordered (e : BranchExit) : Same e e.ordered where
  line := rfl
  index := rfl
  candidates _ := LineSet.mem_ofList

/-- Exits that are the same have the same candidates in order. -/
theorem Same.ordered_eq {e f : BranchExit} (h : Same e f) : e.ordered = f.ordered := by
  rw [ordered, ordered, h.line, h.index, LineSet.ofList_congr h.candidates]

/-- Exits that tie have the same line and number. -/
theorem key_eq_of_exitLE {e f : BranchExit} (hef : SiteMap.exitLE e f)
    (hfe : SiteMap.exitLE f e) : e.key = f.key := by
  rw [SiteMap.exitLE_iff] at hef hfe
  exact Prod.ext (by show e.line = f.line; omega) (by show e.index = f.index; omega)

end BranchExit

namespace SiteMap

open Text.Utf8 (ofString ofString_lt_ofString)

/-! ## What a normal form is -/

/-- All lists of a map are in order: lines and candidates ascend without repetition, exits go by
    line and number, and functions by the bytes of their keys. -/
structure InOrder (m : SiteMap) : Prop where
  lines : m.lines.Pairwise (· < ·)
  exits : m.exits.Pairwise fun a b => a.line < b.line ∨ (a.line = b.line ∧ a.index ≤ b.index)
  candidates : ∀ e ∈ m.exits, e.candidates.Pairwise (· < ·)
  functions : m.functions.Pairwise fun f g => ofString f.key ≤ ofString g.key

/-- The second map is the first with its lists in any order. Lines and candidates may also
    stand any number of times, exits and functions may not. -/
structure Rearranges (m n : SiteMap) : Prop where
  lines : ∀ l, l ∈ n.lines ↔ l ∈ m.lines
  exits : ∃ es, es.Perm m.exits ∧ List.Forall₂ BranchExit.Same es n.exits
  functions : n.functions.Perm m.functions

/-- Exits of one line and number, and functions of one key, stand in the second map in the order
    in which they stand in the first. -/
structure KeepsTies (m n : SiteMap) : Prop where
  exits : ∀ k, List.Forall₂ BranchExit.Same (m.exits.filter fun e => e.key = k)
    (n.exits.filter fun e => e.key = k)
  functions : ∀ k, n.functions.filter (fun f => f.key = k) = m.functions.filter fun f => f.key = k

/-! ## The canonical form is one -/

theorem inOrder_canonical (m : SiteMap) : m.canonical.InOrder where
  lines := pairwise_canonical_lines m
  exits := (pairwise_canonical_exits m).imp exitLE_iff.1
  candidates _ he := pairwise_candidates_canonical he
  functions := (pairwise_canonical_functions m).imp fun {f g} hfg => by
    rw [← List.not_lt, ofString_lt_ofString]
    exact String.not_lt.2 (functionLE_iff.1 hfg)

theorem forall₂_ordered (es : List BranchExit) :
    List.Forall₂ BranchExit.Same es (es.map BranchExit.ordered) := by
  rw [List.forall₂_map_right_iff]
  exact List.forall₂_same.2 fun e _ => e.same_ordered

theorem rearranges_canonical (m : SiteMap) : Rearranges m m.canonical where
  lines _ := LineSet.mem_ofList
  exits := ⟨m.exits.mergeSort exitLE, List.mergeSort_perm _ _, forall₂_ordered _⟩
  functions := List.mergeSort_perm _ _

/-- Exits of one line and number, and functions of one key, are left in the order they had. -/
theorem keepsTies_canonical (m : SiteMap) : KeepsTies m m.canonical where
  exits k := by
    have hties : (m.exits.mergeSort exitLE).filter (fun e => e.key = k)
        = m.exits.filter fun e => e.key = k := by
      refine filter_mergeSort exitLE_trans exitLE_total ?_
      refine List.pairwise_of_forall_mem_list fun a ha b hb => exitLE_iff.2 (.inr ?_)
      have hkey : a.key = b.key := (of_decide_eq_true (List.mem_filter.1 ha).2).trans
        (of_decide_eq_true (List.mem_filter.1 hb).2).symm
      exact ⟨congrArg Prod.fst hkey, Nat.le_of_eq (congrArg Prod.snd hkey)⟩
    have hcanonical : m.canonical.exits.filter (fun e => e.key = k)
        = (m.exits.filter fun e => e.key = k).map BranchExit.ordered := by
      rw [← hties]
      exact List.filter_map
    rw [hcanonical]
    exact forall₂_ordered _
  functions k := by
    refine filter_mergeSort functionLE_trans functionLE_total ?_
    refine List.pairwise_of_forall_mem_list fun f hf g hg => functionLE_iff.2 ?_
    have hkey : f.key = g.key := (of_decide_eq_true (List.mem_filter.1 hf).2).trans
      (of_decide_eq_true (List.mem_filter.1 hg).2).symm
    exact hkey ▸ String.le_refl _

/-! ## One form for all rearrangements -/

/-- Where keys are distinct no two exits tie. -/
theorem Distinct.eq_of_exitLE {m : SiteMap} (h : m.Distinct) {a b : BranchExit}
    (ha : a ∈ m.exits.map BranchExit.ordered) (hb : b ∈ m.exits.map BranchExit.ordered)
    (hab : exitLE a b) (hba : exitLE b a) : a = b := by
  obtain ⟨e, he, rfl⟩ := List.mem_map.1 ha
  obtain ⟨f, hf, rfl⟩ := List.mem_map.1 hb
  have hkey : e.key = f.key := BranchExit.key_eq_of_exitLE hab hba
  rw [List.inj_on_of_nodup_map h.exits he hf hkey]

/-- Maps with the same content have the same exits, once their candidates are in order. -/
theorem Rearranges.perm_ordered {m n : SiteMap} (h : Rearranges m n) :
    (m.exits.map BranchExit.ordered).Perm (n.exits.map BranchExit.ordered) := by
  obtain ⟨es, hperm, hsame⟩ := h.exits
  have hordered : es.map BranchExit.ordered = n.exits.map BranchExit.ordered := by
    rw [← List.forall₂_eq_eq_eq, List.forall₂_map_left_iff, List.forall₂_map_right_iff]
    exact hsame.imp fun _ _ hef => hef.ordered_eq
  rw [← hordered]
  exact hperm.symm.map _

/-- So with distinct keys all maps of one content have one canonical form. -/
theorem Distinct.canonical_eq {m n : SiteMap} (h : m.Distinct) (hn : Rearranges m n) :
    n.canonical = m.canonical := by
  have hexits : m.canonical.exits = n.canonical.exits := by
    rw [canonical_exits, canonical_exits]
    exact mergeSort_eq_of_perm exitLE_trans exitLE_total
      (fun a ha b hb => h.eq_of_exitLE ha hb) hn.perm_ordered
  have hfunctions : m.canonical.functions = n.canonical.functions := by
    refine mergeSort_eq_of_perm functionLE_trans functionLE_total ?_ hn.functions.symm
    intro f hf g hg hfg hgf
    refine List.inj_on_of_nodup_map h.functions hf hg ?_
    exact String.le_antisymm (functionLE_iff.1 hfg) (functionLE_iff.1 hgf)
  exact eq_of_parts (LineSet.ofList_congr hn.lines) hexits.symm hfunctions.symm

/-- The canonical form of a map is in order and holds what the map holds, ties in their order;
    it is its own canonical form; and if the exits of the map can be told apart by line and
    number and its functions by key, then it is the canonical form of every rearrangement. -/
theorem canonical_normalForm (m : SiteMap) :
    m.canonical.InOrder ∧ Rearranges m m.canonical ∧ KeepsTies m m.canonical
      ∧ m.canonical.canonical = m.canonical
      ∧ (m.Distinct → ∀ n, Rearranges m n → n.canonical = m.canonical) :=
  ⟨inOrder_canonical m, rearranges_canonical m, keepsTies_canonical m, canonical_canonical m,
    fun h _ hn => h.canonical_eq hn⟩

/-- A map whose lists are in no order. -/
def unsorted : SiteMap where
  lines := [4, 2, 2, 3]
  exits := [⟨5, 0, [7, 6]⟩, ⟨2, 1, []⟩, ⟨2, 0, [3]⟩]
  functions := [⟨"g:1:0", 1, 9, some 2⟩, ⟨"(anonymous):3:0", 3, 3, none⟩]

/-- The map in yet another order, with lines and candidates that are repeated. -/
def stirred : SiteMap where
  lines := [3, 4, 2, 4]
  exits := [⟨2, 0, [3, 3]⟩, ⟨5, 0, [6, 7, 6]⟩, ⟨2, 1, []⟩]
  functions := [⟨"(anonymous):3:0", 3, 3, none⟩, ⟨"g:1:0", 1, 9, some 2⟩]

theorem canonical_normalForm_stirred :
    unsorted.Distinct ∧ Rearranges unsorted stirred
      ∧ stirred.canonical = unsorted.canonical := by
  have hdistinct : unsorted.Distinct := ⟨by decide, by decide⟩
  have hstirred : Rearranges unsorted stirred := by
    -- Lines as a set, exits up to order and candidates, functions up to order.
    refine ⟨fun l => ?_, ⟨[⟨2, 0, [3]⟩, ⟨5, 0, [7, 6]⟩, ⟨2, 1, []⟩], by decide, ?_⟩, by decide⟩
    · show l ∈ [3, 4, 2, 4] ↔ l ∈ [4, 2, 2, 3]
      simp only [List.mem_cons, List.not_mem_nil, or_false]
      omega
    · refine .cons ⟨rfl, rfl, fun l => ?_⟩
        (.cons ⟨rfl, rfl, fun l => ?_⟩ (.cons ⟨rfl, rfl, ?_⟩ .nil))
      · simp only [List.mem_cons, List.not_mem_nil, or_false]
        omega
      · simp only [List.mem_cons, List.not_mem_nil, or_false]
        omega
      · exact fun _ => Iff.rfl
  obtain ⟨-, -, -, -, hsame⟩ := canonical_normalForm unsorted
  exact ⟨hdistinct, hstirred, hsame hdistinct stirred hstirred⟩

end SiteMap
end Coverage
