/-
  Coverage.Hits.Table

  A table has a counter for each number below its size, all of them zero at the beginning.
  Counters that are still zero take no room, so a table can have as many as a map has lines,
  whatever the last line is.
-/

import Coverage.Hits.Bag

namespace Coverage

/-- Counters for the numbers below a size. -/
structure Table where
  size : Nat
  /-- What has been added to the counters that are not zero any more. -/
  counts : Bag Nat
  deriving Repr, Inhabited

namespace Table

/-- The table with a given number of counters, all zero. -/
def zero (size : Nat) : Table :=
  ⟨size, .empty⟩

/-- The counter of a number, if there is one. -/
def get? (t : Table) (i : Nat) : Option Nat :=
  if i < t.size then some (t.counts.count i) else none

/-- The table with one more in the counter of a number, if there is one. -/
def add (t : Table) (i : Nat) : Table :=
  if i < t.size then { t with counts := t.counts.add i } else t

/-- Whether some counter is not zero. -/
def anyPositive (t : Table) : Bool :=
  t.counts.keys.any fun i => 0 < (t.get? i).getD 0

/-! ## Counting -/

@[simp] theorem size_zero (size : Nat) : (zero size).size = size := rfl

@[simp] theorem size_add (t : Table) (i : Nat) : (t.add i).size = t.size := by
  unfold add
  split <;> rfl

theorem get?_eq_none_iff {t : Table} {i : Nat} : t.get? i = none ↔ ¬i < t.size := by
  unfold get?
  split
  · rename_i hi
    exact iff_of_false (Option.some_ne_none _) (not_not_intro hi)
  · rename_i hi
    exact iff_of_true rfl hi

theorem get?_zero (size i : Nat) : ((zero size).get? i).getD 0 = 0 := by
  unfold get?
  split <;> rfl

/-- A counter that there is goes up by one where its number was added, and a counter that there
    is not stays away. -/
theorem get?_add (t : Table) (i j : Nat) :
    (t.add i).get? j = (t.get? j).map (· + if j = i then 1 else 0) := by
  unfold get?
  rw [size_add]
  split
  · rename_i hj
    unfold add
    split
    · rw [Option.map_some, Bag.count_add]
    · rename_i hi
      have hne : j ≠ i := fun heq => hi (heq ▸ hj)
      rw [if_neg hne]
      rfl
  · rfl

/-- Some counter is not zero exactly if one of those that were added to is not. -/
theorem anyPositive_iff (t : Table) :
    t.anyPositive = true ↔ ∃ i, 0 < (t.get? i).getD 0 := by
  rw [anyPositive, List.any_eq_true]
  constructor
  · rintro ⟨i, -, hi⟩
    exact ⟨i, of_decide_eq_true hi⟩
  · rintro ⟨i, hi⟩
    refine ⟨i, Bag.mem_keys ?_, decide_eq_true hi⟩
    unfold get? at hi
    split at hi
    · exact hi
    · exact absurd hi (Nat.lt_irrefl 0)

theorem anyPositive_zero (size : Nat) : (zero size).anyPositive = false :=
  rfl

/-- A table that has counted something tells so. -/
theorem anyPositive_add {t : Table} {i : Nat} (h : i < t.size) :
    (t.add i).anyPositive = true := by
  rw [anyPositive_iff]
  refine ⟨i, ?_⟩
  rw [get?_add, get?, if_pos h, if_pos rfl]
  exact Nat.succ_pos _

end Table
end Coverage
