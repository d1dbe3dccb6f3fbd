/-
  Coverage.Proofs.Ranking

  Members of a list with their numbers among those of one key, and lists in order of a key.

  `ranked` gives every member the number of those before it that have its key; what counts with
  a bag as it goes gives the same (`numberWith_eq`).  Members of one key have their numbers from
  each other alone (`filter_ranked`).  A sort by key keeps what stands under each key in its
  order (`filter_mergeSort`), and that is all there is to a list in order of a key
  (`eq_of_filter_eq`).
-/

import Coverage.Hits.Bag
import Mathlib.Data.List.Induction

namespace Coverage

variable {α β κ : Type} [DecidableEq κ] {key : α → κ} {as : List α}

/-! ## Numbers -/

/-- The members of a list, each with the number of those before it that have its key. -/
def ranked (key : α → κ) (as : List α) : List (α × Nat) :=
  as.mapIdx fun i a => (a, (as.take i).countP fun b => key b = key a)

/-- The last member is ranked by those before it. -/
theorem ranked_concat (key : α → κ) (as : List α) (a : α) :
    ranked key (as ++ [a]) = ranked key as ++ [(a, as.countP fun b => key b = key a)] := by
  unfold ranked
  rw [List.mapIdx_append, List.mapIdx_singleton, List.take_left' (Nat.zero_add _).symm]
  congr 1
  refine List.ext_getElem (by simp) fun i hi _ => ?_
  have hlt : i ≤ as.length := by
    rw [List.length_mapIdx] at hi
    omega
  simp [List.take_append_of_le_length hlt]

/-- Ranking keeps the members and their order. -/
theorem map_fst_ranked (key : α → κ) (as : List α) : (ranked key as).map Prod.fst = as := by
  induction as using List.reverseRecOn with
  | nil => rfl
  | append_singleton before a ih => rw [ranked_concat, List.map_append, ih, List.map_singleton]

theorem mem_of_mem_ranked {x : α × Nat} (h : x ∈ ranked key as) : x.1 ∈ as := by
  rw [← map_fst_ranked key as]
  exact List.mem_map_of_mem h

/-- The numbers of a key do not depend on other keys. -/
theorem filter_ranked (key : α → κ) (as : List α) (k : κ) :
    (ranked key as).filter (fun x => key x.1 = k) = ranked key (as.filter fun a => key a = k) := by
  induction as using List.reverseRecOn with
  | nil => rfl
  | append_singleton before a ih =>
    rw [ranked_concat, List.filter_append, List.filter_append, ih]
    by_cases hk : key a = k
    · subst hk
      rw [List.filter_cons_of_pos (by simp), List.filter_cons_of_pos (by simp), List.filter_nil,
        List.filter_nil, ranked_concat, List.countP_filter]
      simp
    · rw [List.filter_cons_of_neg (by simpa using hk), List.filter_cons_of_neg (by simpa using hk)]
      simp

/-- A number is below the number of all members of its key. -/
theorem rank_lt {x : α × Nat} (h : x ∈ ranked key as) :
    x.2 < as.countP fun b => key b = key x.1 := by
  induction as using List.reverseRecOn with
  | nil => exact absurd h List.not_mem_nil
  | append_singleton before a ih =>
    rw [ranked_concat] at h
    rw [List.countP_append]
    rcases List.mem_append.1 h with hbefore | hlast
    · exact Nat.lt_add_right _ (ih hbefore)
    · rw [List.mem_singleton.1 hlast]
      simp

/-- Later members of a key have larger numbers. -/
theorem pairwise_ranked (key : α → κ) (as : List α) :
    (ranked key as).Pairwise fun x y => key x.1 = key y.1 → x.2 < y.2 := by
  induction as using List.reverseRecOn with
  | nil => exact List.Pairwise.nil
  | append_singleton before a ih =>
    rw [ranked_concat, List.pairwise_append]
    refine ⟨ih, List.pairwise_singleton _ _, fun x hx y hy hkey => ?_⟩
    rw [List.mem_singleton.1 hy] at hkey ⊢
    rw [← hkey]
    exact rank_lt hx

/-- The first member of a key has the number zero. -/
theorem exists_rank_zero {k : κ} (h : ∃ a ∈ as, key a = k) :
    ∃ a, (a, 0) ∈ ranked key as ∧ key a = k := by
  induction as using List.reverseRecOn with
  | nil =>
    obtain ⟨a, ha, -⟩ := h
    exact absurd ha List.not_mem_nil
  | append_singleton before last ih =>
    rw [ranked_concat]
    by_cases hbefore : ∃ a ∈ before, key a = k
    · obtain ⟨a, ha, hkey⟩ := ih hbefore
      exact ⟨a, List.mem_append_left _ ha, hkey⟩
    · -- So the last one is the first of its key.
      obtain ⟨a, ha, rfl⟩ := h
      have hnone : ∀ b ∈ before, key b ≠ key a := fun b hb hkey => hbefore ⟨b, hb, hkey⟩
      rcases List.mem_append.1 ha with hold | hlast
      · exact absurd rfl (hnone a hold)
      · obtain rfl := List.mem_singleton.1 hlast
        have hzero : before.countP (fun b => key b = key a) = 0 :=
          List.countP_eq_zero.2 fun b hb => by simpa using hnone b hb
        exact ⟨a, List.mem_append_right _ (by rw [hzero]; exact List.mem_singleton_self _), rfl⟩

/-- What is made of the members of a list and of how often their keys were met before. -/
def numberWith (key : α → κ) (row : α → Nat → β) (met : Bag κ) : List α → List β
  | [] => []
  | a :: rest => row a (met.count (key a)) :: numberWith key row (met.add (key a)) rest

/-- Numbering goes on where the members before it ended, if the bag has counted these. -/
theorem numberWith_after (row : α → Nat → β) {met : Bag κ} (before : List α)
    (hmet : ∀ k, met.count k = before.countP fun b => key b = k) (as : List α) :
    (ranked key (before ++ as)).map (fun x => row x.1 x.2)
      = (ranked key before).map (fun x => row x.1 x.2) ++ numberWith key row met as := by
  induction as generalizing before met with
  | nil => rw [numberWith, List.append_nil, List.append_nil]
  | cons a rest ih =>
    have hnext : ∀ k, (met.add (key a)).count k = (before ++ [a]).countP fun b => key b = k := by
      intro k
      rw [Bag.count_add, hmet, List.countP_append, List.countP_singleton]
      simp [eq_comm]
    rw [List.append_cons, ih _ hnext, ranked_concat, numberWith, hmet]
    simp

/-- What a bag has met is what stands before. -/
theorem numberWith_eq (row : α → Nat → β) (as : List α) :
    numberWith key row .empty as = (ranked key as).map fun x => row x.1 x.2 :=
  (numberWith_after row [] (fun _ => rfl) as).symm

/-! ## Order -/

/-- Sorting keeps the order of members that are in order among each other. -/
theorem filter_mergeSort {le : α → α → Bool} (htrans : ∀ a b c, le a b → le b c → le a c)
    (htotal : ∀ a b, le a b || le b a) {q : α → Bool}
    (h : (as.filter q).Pairwise fun a b => le a b) : (as.mergeSort le).filter q = as.filter q := by
  have hsorted : (as.filter q).Sublist (as.mergeSort le) :=
    List.sublist_mergeSort htrans htotal h List.filter_sublist
  have hkept : (as.filter q).Sublist ((as.mergeSort le).filter q) := by
    simpa [List.filter_filter] using hsorted.filter q
  -- A sublist that is as long as the whole list is the whole list.
  exact (hkept.eq_of_length ((List.mergeSort_perm as le).filter q).length_eq.symm).symm

/-- In a sorted list members that tie are related as they were before. -/
theorem pairwise_mergeSort_ties {le : α → α → Bool} (htrans : ∀ a b c, le a b → le b c → le a c)
    (htotal : ∀ a b, le a b || le b a) {R : α → α → Prop} (h : as.Pairwise R) :
    (as.mergeSort le).Pairwise fun a b => le a b ∧ (le b a → R a b) := by
  rw [List.pairwise_iff_forall_sublist]
  intro a b hab
  have hle : le a b :=
    List.pairwise_iff_forall_sublist.1 (List.pairwise_mergeSort htrans htotal as) hab
  refine ⟨hle, fun hba => ?_⟩
  -- The members that tie with the first of the two keep their order, and so do the two.
  let ties : α → Bool := fun c => le a c && le c a
  have hself : le a a := htrans a b a hle hba
  have hties : (as.filter ties).Pairwise fun c d => le c d := by
    refine List.pairwise_of_forall_mem_list fun c hc d hd => ?_
    have hca : le c a := (Bool.and_eq_true _ _ ▸ (List.mem_filter.1 hc).2).2
    have had : le a d := (Bool.and_eq_true _ _ ▸ (List.mem_filter.1 hd).2).1
    exact htrans c a d hca had
  have hkept : [a, b].filter ties = [a, b] := by
    simp [ties, hself, hle, hba]
  have hsub := hab.filter ties
  rw [filter_mergeSort htrans htotal hties, hkept] at hsub
  exact List.pairwise_iff_forall_sublist.1 h (hsub.trans List.filter_sublist)

/-- Whether the key of a member is at most that of another. -/
def keyLE (key : α → Nat) (a b : α) : Bool :=
  key a ≤ key b

theorem keyLE_trans (key : α → Nat) (a b c : α) (hab : keyLE key a b) (hbc : keyLE key b c) :
    keyLE key a c := by
  simp only [keyLE, decide_eq_true_eq] at *
  exact Nat.le_trans hab hbc

theorem keyLE_total (key : α → Nat) (a b : α) : keyLE key a b || keyLE key b a := by
  simpa [keyLE] using Nat.le_total (key a) (key b)

/-- The members in order of a key, those of one key as they come. -/
def sortBy (key : α → Nat) (as : List α) : List α :=
  as.mergeSort (keyLE key)

/-- What is sorted by a number is in order of it. -/
theorem pairwise_sortBy (key : α → Nat) (as : List α) :
    (sortBy key as).Pairwise fun a b => key a ≤ key b :=
  (List.pairwise_mergeSort (keyLE_trans key) (keyLE_total key) as).imp of_decide_eq_true

/-- Members with one number keep their order. -/
theorem filter_sortBy (key : α → Nat) (as : List α) (k : Nat) :
    (sortBy key as).filter (fun a => key a = k) = as.filter fun a => key a = k := by
  apply filter_mergeSort (keyLE_trans key) (keyLE_total key)
  -- Under one key all members are in order.
  apply List.pairwise_of_forall_mem_list
  intro a ha b hb
  have hkey : key a = key b := (of_decide_eq_true (List.mem_filter.1 ha).2).trans
    (of_decide_eq_true (List.mem_filter.1 hb).2).symm
  exact decide_eq_true (Nat.le_of_eq hkey)

/-- Sorting does not look at anything but the number. -/
theorem sortBy_map (key : α → Nat) (f : β → α) (bs : List β) :
    sortBy key (bs.map f) = (sortBy (fun b => key (f b)) bs).map f := by
  have hkey : ∀ a ∈ bs, ∀ b ∈ bs, keyLE (fun b => key (f b)) a b = keyLE key (f a) (f b) :=
    fun _ _ _ _ => rfl
  exact (List.map_mergeSort hkey).symm

/-- A list in order of a key is determined by what stands under each key. -/
theorem eq_of_filter_eq (key : α → Nat) {bs : List α}
    (has : as.Pairwise fun a b => key a ≤ key b) (hbs : bs.Pairwise fun a b => key a ≤ key b)
    (h : ∀ k, as.filter (fun a => key a = k) = bs.filter fun b => key b = k) : as = bs := by
  have hmem {a : α} {cs ds : List α}
      (h : ∀ k, cs.filter (fun c => key c = k) = ds.filter fun d => key d = k) (ha : a ∈ cs) :
      a ∈ ds := by
    have hunder : a ∈ cs.filter fun c => key c = key a := List.mem_filter.2 ⟨ha, by simp⟩
    rw [h] at hunder
    exact (List.mem_filter.1 hunder).1
  induction as generalizing bs with
  | nil =>
    refine (List.eq_nil_iff_forall_not_mem.2 fun b hb => ?_).symm
    exact absurd (hmem (fun k => (h k).symm) hb) List.not_mem_nil
  | cons a as ih =>
    obtain ⟨hfirst, hrest⟩ := List.pairwise_cons.1 has
    cases bs with
    | nil => exact absurd (hmem h List.mem_cons_self) List.not_mem_nil
    | cons b bs =>
      obtain ⟨hfirst', hrest'⟩ := List.pairwise_cons.1 hbs
      -- Each of the two heads stands in the other list too, so neither key is the smaller one.
      have hkey : key a = key b := by
        apply Nat.le_antisymm
        · rcases List.mem_cons.1 (hmem (fun k => (h k).symm) List.mem_cons_self) with rfl | hlater
          · exact Nat.le_refl _
          · exact hfirst b hlater
        · rcases List.mem_cons.1 (hmem h List.mem_cons_self) with rfl | hlater
          · exact Nat.le_refl _
          · exact hfirst' a hlater
      have hheads := h (key a)
      rw [List.filter_cons_of_pos (by simp), List.filter_cons_of_pos (by simp [hkey])] at hheads
      obtain ⟨rfl, htails⟩ := List.cons.inj hheads
      refine congrArg _ (ih hrest hrest' fun k => ?_)
      by_cases hk : key a = k
      · exact hk ▸ htails
      · have hunder := h k
        rwa [List.filter_cons_of_neg (by simpa using hk),
          List.filter_cons_of_neg (by simpa using hk)] at hunder

end Coverage
