/-
  Coverage.Hits.Bag

  A bag counts how often each key was added to it. Only keys that were added take room, and
  `count_add` is all there is to know about one.
-/

namespace Coverage

/-- How often each of some keys was added. -/
structure Bag (α : Type) where
  counts : List (α × Nat)
  deriving Repr, Inhabited

namespace Bag

variable {α : Type} [DecidableEq α]

/-- The bag to which nothing was added. -/
def empty : Bag α :=
  ⟨[]⟩

/-- Adds one to the count of a key, which begins at zero. -/
def bump (a : α) : List (α × Nat) → List (α × Nat)
  | [] => [(a, 1)]
  | (b, n) :: rest => if b = a then (b, n + 1) :: rest else (b, n) :: bump a rest

/-- The bag with one more of a key. -/
def add (s : Bag α) (a : α) : Bag α :=
  ⟨bump a s.counts⟩

/-- How often a key was added. -/
def count (s : Bag α) (a : α) : Nat :=
  (s.counts.lookup a).getD 0

/-- The keys that were added. -/
def keys (s : Bag α) : List α :=
  s.counts.map Prod.fst

/-- Whether nothing was added. -/
def isEmpty (s : Bag α) : Bool :=
  s.counts.isEmpty

/-! ## Counting -/

@[simp]
theorem count_empty (a : α) : (empty : Bag α).count a = 0 :=
  rfl

/-- A key that was counted is one of the keys. -/
theorem mem_keys {s : Bag α} {a : α} (h : 0 < s.count a) : a ∈ s.keys := by
  unfold count at h
  cases hlookup : s.counts.lookup a with
  | none =>
    rw [hlookup] at h
    exact absurd h (Nat.lt_irrefl 0)
  | some n =>
    obtain ⟨front, back, hcounts, -⟩ := List.lookup_eq_some_iff.1 hlookup
    rw [keys, hcounts]
    exact List.mem_map_of_mem (f := Prod.fst) (List.mem_append_right front List.mem_cons_self)

/-- Counting one thing adds one to its own count, and leaves the counts of others. -/
theorem lookup_bump (a b : α) (s : List (α × Nat)) :
    ((bump a s).lookup b).getD 0 = (s.lookup b).getD 0 + if b = a then 1 else 0 := by
  have beq {x y : α} (h : x ≠ y) : (x == y) = false := by simpa using h
  induction s with
  | nil =>
    by_cases h : b = a
    · simp [bump, h]
    · simp [bump, List.lookup_cons, beq h, h]
  | cons p rest ih =>
    obtain ⟨c, n⟩ := p
    by_cases hc : c = a
    · subst hc
      by_cases hb : b = c
      · simp [bump, hb]
      · simp [bump, List.lookup_cons, beq hb, hb]
    · by_cases hb : b = c
      · subst hb
        simp [bump, hc]
      · simp [bump, hc, List.lookup_cons, beq hb, ih]

/-- A bag with one more of a thing has one more of it, and as many of all others. -/
theorem count_add (s : Bag α) (a b : α) :
    (s.add a).count b = s.count b + if b = a then 1 else 0 :=
  lookup_bump a b s.counts

theorem isEmpty_add (s : Bag α) (a : α) : (s.add a).isEmpty = false := by
  obtain ⟨counts⟩ := s
  cases counts with
  | nil => rfl
  | cons p rest =>
    show (bump a (p :: rest)).isEmpty = false
    unfold bump
    split <;> rfl

end Bag
end Coverage
