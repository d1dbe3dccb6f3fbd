/-
  Coverage.LineSet

  Sets of lines as strictly ascending lists. `ofList` sorts and drops repetitions;
  `mem_ofList` and `pairwise_ofList` say so, and nothing else needs to look inside.
-/

namespace Coverage.LineSet

/-- Adds a line in its place. -/
def insert (l : Nat) : List Nat → List Nat
  | [] => [l]
  | k :: rest =>
    if l < k then l :: k :: rest
    else if l = k then k :: rest
    else k :: insert l rest

/-- The lines of a list, each once and in ascending order. -/
def ofList (ls : List Nat) : List Nat :=
  ls.foldr insert []

/-! ## What a set holds -/

/-- A set with one more line has that line and its own. -/
@[simp]
theorem mem_insert {l m : Nat} {s : List Nat} : m ∈ insert l s ↔ m = l ∨ m ∈ s := by
  induction s with
  | nil => simp [insert]
  | cons k rest ih =>
    unfold insert
    split
    · simp
    · split
      · rename_i h
        subst h
        simp
      · simp only [List.mem_cons, ih]
        constructor
        · rintro (h | h | h) <;> simp [h]
        · rintro (h | h | h) <;> simp [h]

/-- A list and its set have the same lines. -/
@[simp]
theorem mem_ofList {m : Nat} {ls : List Nat} : m ∈ ofList ls ↔ m ∈ ls := by
  induction ls with
  | nil => simp [ofList]
  | cons l rest ih =>
    have : ofList (l :: rest) = insert l (ofList rest) := rfl
    rw [this, mem_insert, ih, List.mem_cons]

/-! ## Order -/

/-- A line that is put in its place leaves the lines in order, each once. -/
theorem pairwise_insert {l : Nat} {s : List Nat} (h : s.Pairwise (· < ·)) :
    (insert l s).Pairwise (· < ·) := by
  induction s with
  | nil => simp [insert]
  | cons k rest ih =>
    obtain ⟨hk, hrest⟩ := List.pairwise_cons.1 h
    unfold insert
    split
    · rename_i hl
      refine List.pairwise_cons.2 ⟨fun m hm => ?_, h⟩
      rcases List.mem_cons.1 hm with rfl | hm
      · exact hl
      · exact Nat.lt_trans hl (hk m hm)
    · split
      · exact h
      · refine List.pairwise_cons.2 ⟨fun m hm => ?_, ih hrest⟩
        rcases mem_insert.1 hm with rfl | hm
        · omega
        · exact hk m hm

/-- The lines of a set are in order, each once. -/
theorem pairwise_ofList (ls : List Nat) : (ofList ls).Pairwise (· < ·) := by
  induction ls with
  | nil => exact List.Pairwise.nil
  | cons l rest ih => exact pairwise_insert ih

end Coverage.LineSet
