/-
  Coverage.Proofs.SiteMap.Search

  The search for a key among functions that are ordered by key.

  Of the part that is left to it, a search knows that all keys before it are smaller and all
  keys after it are larger (`Window`).  A comparison with a key inside keeps this, on the side
  on which the search goes on (`Window.above`, `Window.below`), so where nothing is left no
  function has the key.  By induction along the search it finds just the slot of the key
  (`searchKey_eq_some_iff`), and none if no function has it.
-/

import Coverage.Proofs.Text.ByteOrder
import Coverage.SiteMap.Basic
import Mathlib.Data.List.Nodup

namespace Coverage.SiteMap

open Text.Utf8 (ofString ofString_lt_ofString)

/-! ## Keys in order -/

/-- The keys of the functions of a map, slot by slot. -/
def keys (m : SiteMap) : List String :=
  m.functions.map FunctionSpan.key

/-- The functions of a map are in canonical order, by the bytes of their keys, and no two of
    them have one key. -/
structure KeysInOrder (m : SiteMap) : Prop where
  ordered : m.keys.Pairwise fun j k => ofString j ≤ ofString k
  distinct : m.keys.Nodup

theorem KeysInOrder.pairwise_le {m : SiteMap} (h : m.KeysInOrder) : m.keys.Pairwise (· ≤ ·) :=
  h.ordered.imp fun {j k} hjk => by
    rw [← String.not_lt, ← ofString_lt_ofString, List.not_lt]
    exact hjk

theorem le_of_getElem? {ks : List String} {k l : String} {i j : Nat}
    (hordered : ks.Pairwise (· ≤ ·)) (hk : ks[i]? = some k) (hl : ks[j]? = some l)
    (hij : i ≤ j) : k ≤ l := by
  obtain ⟨hi, rfl⟩ := List.getElem?_eq_some_iff.1 hk
  obtain ⟨hj, rfl⟩ := List.getElem?_eq_some_iff.1 hl
  rcases Nat.lt_or_eq_of_le hij with hlt | rfl
  · exact List.pairwise_iff_getElem.1 hordered i j hi hj hlt
  · exact String.le_refl _

/-! ## What is left of a search -/

/-- What a search for a key has left to it, from one slot up to another: all keys before that
    part are smaller, and all after it are larger. -/
structure Window (ks : List String) (key : String) (low high : Nat) : Prop where
  inside : high ≤ ks.length
  before : ∀ i < low, ∀ k ∈ ks[i]?, k < key
  beyond : ∀ i ≥ high, ∀ k ∈ ks[i]?, key < k

namespace Window

variable {ks : List String} {key k : String} {low high middle : Nat}

theorem whole (ks : List String) (key : String) : Window ks key 0 ks.length where
  inside := Nat.le_refl _
  before _ hi := absurd hi (Nat.not_lt_zero _)
  beyond i hi k hk := by
    rw [List.getElem?_eq_none hi] at hk
    cases hk

/-- A smaller key is left out with all before it. -/
theorem above (h : Window ks key low high) (hordered : ks.Pairwise (· ≤ ·))
    (hk : ks[middle]? = some k) (hlt : k < key) : Window ks key (middle + 1) high where
  inside := h.inside
  before i hi j hj := by
    have hle : j ≤ k := le_of_getElem? hordered hj hk (Nat.le_of_lt_succ hi)
    exact Std.lt_of_le_of_lt hle hlt
  beyond := h.beyond

/-- A larger key is left out with all after it. -/
theorem below (h : Window ks key low high) (hordered : ks.Pairwise (· ≤ ·))
    (hk : ks[middle]? = some k) (hlt : key < k) : Window ks key low middle where
  inside := Nat.le_of_lt (List.getElem?_eq_some_iff.1 hk).1
  before := h.before
  beyond i hi j hj := by
    have hle : k ≤ j := le_of_getElem? hordered hk hj hi
    exact Std.lt_of_lt_of_le hlt hle

/-- Where nothing is left, no slot has the key. -/
theorem getElem?_ne (h : Window ks key low high) (hclosed : high ≤ low) (slot : Nat) :
    ks[slot]? ≠ some key := by
  intro hslot
  rcases Nat.lt_or_ge slot low with hlow | hlow
  · exact String.lt_irrefl _ (h.before slot hlow key hslot)
  · exact String.lt_irrefl _ (h.beyond slot (Nat.le_trans hclosed hlow) key hslot)

end Window

/-! ## What a search finds -/

theorem getElem?_key {fs : List FunctionSpan} {f : FunctionSpan} {slot : Nat}
    (h : fs.toArray[slot]? = some f) : (fs.map FunctionSpan.key)[slot]? = some f.key := by
  rw [List.getElem?_toArray] at h
  rw [List.getElem?_map, h, Option.map_some]

/-- Where keys are ordered and distinct, a search finds the slot of its key from any window. -/
theorem searchKey_eq_some_iff {fs : List FunctionSpan} {key : String} {low high slot : Nat}
    (hordered : (fs.map FunctionSpan.key).Pairwise (· ≤ ·))
    (hdistinct : (fs.map FunctionSpan.key).Nodup)
    (h : Window (fs.map FunctionSpan.key) key low high) :
    searchKey fs.toArray key low high = some slot
      ↔ (fs.map FunctionSpan.key)[slot]? = some key := by
  -- Along the search; the window is what each comparison hands on.
  fun_induction searchKey fs.toArray key low high with
  | case1 low high hopen middle hnone =>
    -- The middle lies before `high`, so there is a function to compare with.
    have hmiddle : fs.length ≤ middle := by
      rwa [List.getElem?_toArray, List.getElem?_eq_none_iff] at hnone
    have hinside := h.inside
    rw [List.length_map] at hinside
    omega
  | case2 low high hopen middle f hf hlt ih => exact ih (h.above hordered (getElem?_key hf) hlt)
  | case3 low high hopen middle f hf hlt heq =>
    have hmiddle : (fs.map FunctionSpan.key)[middle]? = some key := heq ▸ getElem?_key hf
    have hlength := (List.getElem?_eq_some_iff.1 hmiddle).1
    -- No other slot has the key, for the keys are distinct.
    rw [Option.some.injEq, ← hmiddle, ← List.getElem?_inj hlength hdistinct]
    exact eq_comm
  | case4 low high hopen middle f hf hlt hne ih =>
    have hgt : key < f.key := Std.lt_of_le_of_ne (String.not_lt.1 hlt) fun heq => hne heq.symm
    exact ih (h.below hordered (getElem?_key hf) hgt)
  | case5 low high hclosed =>
    exact iff_of_false nofun (h.getElem?_ne (Nat.not_lt.1 hclosed) slot)

variable {m : SiteMap} {key : String}

/-- In keys in order, the slot that is found is the one that has the key. -/
theorem KeysInOrder.functionIndex?_eq_some_iff (h : m.KeysInOrder) {slot : Nat} :
    m.functionIndex? key = some slot ↔ m.keys[slot]? = some key := by
  have hwhole := Window.whole m.keys key
  rw [keys, List.length_map] at hwhole
  exact searchKey_eq_some_iff h.pairwise_le h.distinct hwhole

theorem KeysInOrder.functionIndex?_eq_none_iff (h : m.KeysInOrder) :
    m.functionIndex? key = none ↔ key ∉ m.keys := by
  rw [Option.eq_none_iff_forall_ne_some, List.mem_iff_getElem?, not_exists]
  exact forall_congr' fun slot => not_congr h.functionIndex?_eq_some_iff

end Coverage.SiteMap
