/-
  Coverage.Proofs.Keyed

  Entries ordered by key: nothing is lost where the keys are distinct, and entries that are
  in order already are left as they are.
-/

import Coverage.Keyed

namespace Coverage.Keyed

variable {α β : Type} {l acc : List (String × α)} {key : String} {a : α}

/-- Entries in strictly ascending order of key. -/
def Ascending (l : List (String × α)) : Prop :=
  l.Pairwise fun a b => a.1 < b.1

/-- An entry is found if its key stands once. -/
theorem lookup_of_mem {κ : Type} [BEq κ] [LawfulBEq κ] {pairs : List (κ × β)} {k : κ} {b : β}
    (hdistinct : (pairs.map Prod.fst).Nodup) (h : (k, b) ∈ pairs) :
    pairs.lookup k = some b := by
  induction pairs with
  | nil => exact absurd h List.not_mem_nil
  | cons p rest ih =>
    obtain ⟨other, c⟩ := p
    rw [List.map_cons, List.nodup_cons] at hdistinct
    rcases List.mem_cons.1 h with heq | hrest
    · cases heq
      exact List.lookup_cons_self
    · have hne : k ≠ other := by
        rintro rfl
        exact hdistinct.1 (List.mem_map.2 ⟨_, hrest, rfl⟩)
      rw [List.lookup_cons, beq_eq_false_iff_ne.2 hne]
      exact ih hdistinct.2 hrest

/-! ## Order -/

theorem mem_insert {p : String × α} (h : p ∈ insert key a l) : p = (key, a) ∨ p ∈ l := by
  induction l with
  | nil => exact .inl (List.mem_singleton.1 h)
  | cons q rest ih =>
    obtain ⟨k, b⟩ := q
    unfold insert at h
    split at h
    · exact List.mem_cons.1 h
    · split at h
      · rcases List.mem_cons.1 h with rfl | hrest
        · exact .inl rfl
        · exact .inr (List.mem_cons_of_mem _ hrest)
      · rcases List.mem_cons.1 h with rfl | hrest
        · exact .inr List.mem_cons_self
        · rcases ih hrest with rfl | hmem
          · exact .inl rfl
          · exact .inr (List.mem_cons_of_mem _ hmem)

theorem ascending_insert (h : Ascending l) : Ascending (insert key a l) := by
  induction l with
  | nil => exact List.pairwise_singleton _ _
  | cons q rest ih =>
    obtain ⟨k, b⟩ := q
    obtain ⟨hk, hrest⟩ := List.pairwise_cons.1 h
    unfold insert
    split
    · rename_i hlt
      refine List.pairwise_cons.2 ⟨fun p hp => ?_, h⟩
      rcases List.mem_cons.1 hp with rfl | hp
      · exact hlt
      · exact String.lt_trans hlt (hk p hp)
    · split
      · rename_i heq
        subst heq
        exact List.pairwise_cons.2 ⟨hk, hrest⟩
      · rename_i hge hne
        refine List.pairwise_cons.2 ⟨fun p hp => ?_, ih hrest⟩
        rcases mem_insert hp with rfl | hp
        · exact Std.lt_of_le_of_ne (String.not_lt.1 hge) fun heq => hne heq.symm
        · exact hk p hp

theorem ascending_ofList (l : List (String × α)) : Ascending (ofList l) := by
  have hfold : ∀ (l acc : List (String × α)), Ascending acc →
      Ascending (l.foldl (fun acc e => insert e.1 e.2 acc) acc) := by
    intro l
    induction l with
    | nil => exact fun _ h => h
    | cons e rest ih => exact fun acc h => ih _ (ascending_insert h)
  exact hfold l [] List.Pairwise.nil

/-- Entries in order are determined by which they are. -/
theorem eq_of_mem_iff {l' : List (String × α)} (h : Ascending l) (h' : Ascending l')
    (hmem : ∀ p, p ∈ l ↔ p ∈ l') : l = l' := by
  have hne : ∀ {a b : String × α}, a.1 < b.1 → a ≠ b := by
    rintro a b hab rfl
    exact String.lt_irrefl _ hab
  have hperm : l.Perm l' := (List.perm_ext_iff_of_nodup (h.imp hne) (h'.imp hne)).2 hmem
  exact hperm.eq_of_pairwise (fun a b _ _ hab hba => absurd hba (String.lt_asymm hab)) h h'

/-! ## Entries -/

/-- Every entry in order is one that was given. -/
theorem mem_ofList {p : String × α} (h : p ∈ ofList l) : p ∈ l := by
  have hfold : ∀ (l acc : List (String × α)),
      p ∈ l.foldl (fun acc e => insert e.1 e.2 acc) acc → p ∈ acc ∨ p ∈ l := by
    intro l
    induction l with
    | nil => exact fun _ h => .inl h
    | cons e rest ih =>
      intro acc h
      rcases ih _ h with h | h
      · rcases mem_insert h with rfl | h
        · exact .inr List.mem_cons_self
        · exact .inl h
      · exact .inr (List.mem_cons_of_mem e h)
  rcases hfold l [] h with h | h
  · exact absurd h List.not_mem_nil
  · exact h

theorem perm_insert (h : key ∉ l.map Prod.fst) : (insert key a l).Perm ((key, a) :: l) := by
  induction l with
  | nil => exact .refl _
  | cons q rest ih =>
    obtain ⟨k, b⟩ := q
    rw [List.map_cons, List.mem_cons, not_or] at h
    unfold insert
    split
    · exact .refl _
    · rw [if_neg h.1]
      exact ((ih h.2).cons (k, b)).trans (.swap (key, a) (k, b) rest)

/-- No entry is lost if the keys are distinct. -/
theorem perm_ofList (h : (l.map Prod.fst).Nodup) : (ofList l).Perm l := by
  -- Said for any entries that are in place already, whose keys must differ from the rest.
  have hfold : ∀ (l acc : List (String × α)), ((acc ++ l).map Prod.fst).Nodup →
      (l.foldl (fun acc e => insert e.1 e.2 acc) acc).Perm (acc ++ l) := by
    intro l
    induction l with
    | nil =>
      intro acc _
      rw [List.append_nil]
      exact .refl acc
    | cons e rest ih =>
      intro acc hkeys
      have hmiddle : (acc ++ e :: rest).Perm (e :: (acc ++ rest)) := List.perm_middle
      have hmoved := (hmiddle.map Prod.fst).nodup_iff.1 hkeys
      rw [List.map_cons, List.nodup_cons, List.map_append, List.mem_append, not_or] at hmoved
      have hinsert : (insert e.1 e.2 acc).Perm (e :: acc) := perm_insert hmoved.1.1
      have hperm : (insert e.1 e.2 acc ++ rest).Perm (acc ++ e :: rest) :=
        (hinsert.append_right rest).trans hmiddle.symm
      exact (ih _ ((hperm.map Prod.fst).nodup_iff.2 hkeys)).trans hperm
  exact hfold l [] h

theorem insert_of_lt (h : ∀ p ∈ acc, p.1 < key) : insert key a acc = acc ++ [(key, a)] := by
  induction acc with
  | nil => rfl
  | cons q rest ih =>
    obtain ⟨k, b⟩ := q
    have hk : k < key := h (k, b) List.mem_cons_self
    have hne : key ≠ k := by
      rintro rfl
      exact String.lt_irrefl _ hk
    rw [insert, if_neg (String.lt_asymm hk), if_neg hne,
      ih fun p hp => h p (List.mem_cons_of_mem _ hp)]
    rfl

/-- Entries in order are left as they are. -/
theorem ofList_of_ascending (h : Ascending l) : ofList l = l := by
  have hfold : ∀ (l acc : List (String × α)), Ascending (acc ++ l) →
      l.foldl (fun acc e => insert e.1 e.2 acc) acc = acc ++ l := by
    intro l
    induction l with
    | nil =>
      intro acc _
      rw [List.append_nil]
      rfl
    | cons e rest ih =>
      intro acc hacc
      -- An entry that comes after all others goes to the end.
      have hbefore : ∀ p ∈ acc, p.1 < e.1 := fun p hp =>
        (List.pairwise_append.1 hacc).2.2 p hp e List.mem_cons_self
      have hsplit : acc ++ e :: rest = (acc ++ [e]) ++ rest := by
        rw [List.append_assoc]
        rfl
      rw [List.foldl_cons, insert_of_lt hbefore, hsplit]
      exact ih (acc ++ [e]) (hsplit ▸ hacc)
  exact hfold l [] h

/-! ## Changing what stands under the keys -/

theorem insert_map (f : α → β) (key : String) (a : α) (l : List (String × α)) :
    insert key (f a) (l.map fun e => (e.1, f e.2))
      = (insert key a l).map fun e => (e.1, f e.2) := by
  induction l with
  | nil => rfl
  | cons q rest ih =>
    obtain ⟨k, b⟩ := q
    rw [List.map_cons, insert, insert]
    split
    · rfl
    · split
      · rfl
      · rw [ih, List.map_cons]

/-- What stands under the keys has no part in their order. -/
theorem ofList_map (f : α → β) (l : List (String × α)) :
    ofList (l.map fun e => (e.1, f e.2)) = (ofList l).map fun e => (e.1, f e.2) := by
  have hfold : ∀ (l acc : List (String × α)),
      (l.map fun e => (e.1, f e.2)).foldl (fun acc e => insert e.1 e.2 acc)
          (acc.map fun e => (e.1, f e.2))
        = (l.foldl (fun acc e => insert e.1 e.2 acc) acc).map fun e => (e.1, f e.2) := by
    intro l
    induction l with
    | nil => exact fun _ => rfl
    | cons e rest ih =>
      intro acc
      have hinsert := insert_map f e.1 e.2 acc
      rw [List.map_cons, List.foldl_cons, List.foldl_cons]
      simp only
      rw [hinsert, ih]
  exact hfold l []

end Coverage.Keyed
