/-
  Coverage.Proofs.Json.Spelled

  What the values that text spells out are made of.

  `Spelled` says that a value is that of some document.  The parts of such a value are spelled
  out inside it (`Spelled.of_mem_members`, `Spelled.of_mem_items`), and the members of an object
  are in order of key at every depth (`Spelled.ascending`).  All of this is read off one
  inversion, which says what a value that is written is made of (`madeOf_of_value?`).
-/

import Coverage.Json.Value
import Coverage.Proofs.Keyed

namespace Coverage.Json.Value

/-- A value that some document has. -/
def Spelled (v : Value) : Prop :=
  ∃ (depth : Nat) (d : Document), d.value? depth = some v

theorem spelled_of_ofString? {text : String} {v : Value} (h : ofString? text = some v) :
    Spelled v := by
  obtain ⟨d, -, hd⟩ := Option.bind_eq_some_iff.1 h
  exact ⟨nestingLimit, d, hd⟩

/-! ## Objects and arrays that are written -/

/-- What a value is made of: an object of members that are written, put in order of key, an array
    of items that are written, and any other value of nothing further. -/
inductive MadeOf : Value → Prop
  | object {depth : Nat} {written : List (RawText × Document)} {ms : List (String × Value)}
      (h : memberValues? depth written = some ms) : MadeOf (.object (Keyed.ofList ms))
  | array {depth : Nat} {written : List Document} {items : List Value}
      (h : itemValues? depth written = some items) : MadeOf (.array items)
  | plain {v : Value} (hmembers : v.members? = none) (hitems : v.items? = none) : MadeOf v

/-- A number is neither an object nor an array. -/
theorem madeOf_of_numeral {n : Numeral} {v : Value} (h : n.value? = some v) : MadeOf v := by
  unfold Numeral.value? at h
  split at h
  · cases h
    exact .plain rfl rfl
  · split at h
    · cases h
    · cases h
      exact .plain rfl rfl

/-- One case for each kind of document; only objects and arrays hold other values. -/
theorem madeOf_of_value? {depth : Nat} {d : Document} {v : Value}
    (h : d.value? depth = some v) : MadeOf v := by
  cases d with
  | object written =>
    rw [Document.value?] at h
    split at h
    · cases h
    · obtain ⟨ms, hms, rfl⟩ := Option.map_eq_some_iff.1 h
      exact .object hms
  | array written =>
    rw [Document.value?] at h
    split at h
    · cases h
    · obtain ⟨items, hitems, rfl⟩ := Option.map_eq_some_iff.1 h
      exact .array hitems
  | number n => exact madeOf_of_numeral h
  | text t =>
    obtain ⟨_, -, rfl⟩ := Option.map_eq_some_iff.1 h
    exact .plain rfl rfl
  | null | bool =>
    cases h
    exact .plain rfl rfl

theorem spelled_of_mem_memberValues? {depth : Nat} {written : List (RawText × Document)}
    {ms : List (String × Value)} (h : memberValues? depth written = some ms)
    {m : String × Value} (hm : m ∈ ms) : Spelled m.2 := by
  induction written generalizing ms with
  | nil =>
    rw [memberValues?] at h
    cases h
    cases hm
  | cons first rest ih =>
    rw [memberValues?] at h
    obtain ⟨key, -, h⟩ := Option.bind_eq_some_iff.1 h
    obtain ⟨v, hv, h⟩ := Option.bind_eq_some_iff.1 h
    obtain ⟨others, hothers, h⟩ := Option.bind_eq_some_iff.1 h
    cases h
    rcases List.mem_cons.1 hm with rfl | hm
    · exact ⟨depth, first.2, hv⟩
    · exact ih hothers hm

theorem spelled_of_mem_itemValues? {depth : Nat} {written : List Document} {vs : List Value}
    (h : itemValues? depth written = some vs) {w : Value} (hw : w ∈ vs) : Spelled w := by
  induction written generalizing vs with
  | nil =>
    rw [itemValues?] at h
    cases h
    cases hw
  | cons first rest ih =>
    rw [itemValues?] at h
    obtain ⟨v, hv, h⟩ := Option.bind_eq_some_iff.1 h
    obtain ⟨others, hothers, h⟩ := Option.bind_eq_some_iff.1 h
    cases h
    rcases List.mem_cons.1 hw with rfl | hw
    · exact ⟨depth, first, hv⟩
    · exact ih hothers hw

/-! ## The parts of a value that is spelled out -/

theorem Spelled.madeOf {v : Value} (h : Spelled v) : MadeOf v := by
  obtain ⟨depth, d, hd⟩ := h
  exact madeOf_of_value? hd

/-- The members of an object that is spelled out are in order of key. -/
theorem Spelled.ascending {v : Value} {ms : List (String × Value)} (h : Spelled v)
    (hms : v.members? = some ms) : Keyed.Ascending ms := by
  cases h.madeOf with
  | @object _ _ written _ =>
    cases hms
    exact Keyed.ascending_ofList written
  | array => cases hms
  | plain hmembers _ =>
    rw [hmembers] at hms
    cases hms

/-- The members of an object that is spelled out are spelled out in it. -/
theorem Spelled.of_mem_members {v : Value} {ms : List (String × Value)} {m : String × Value}
    (h : Spelled v) (hms : v.members? = some ms) (hm : m ∈ ms) : Spelled m.2 := by
  cases h.madeOf with
  | object hwritten =>
    cases hms
    -- Order and repeated keys change which members there are only by leaving some out.
    exact spelled_of_mem_memberValues? hwritten (Keyed.mem_ofList hm)
  | array => cases hms
  | plain hmembers _ =>
    rw [hmembers] at hms
    cases hms

/-- The items of an array that is spelled out are spelled out in it. -/
theorem Spelled.of_mem_items {v w : Value} {items : List Value} (h : Spelled v)
    (hitems : v.items? = some items) (hw : w ∈ items) : Spelled w := by
  cases h.madeOf with
  | object => cases hitems
  | array hwritten =>
    cases hitems
    exact spelled_of_mem_itemValues? hwritten hw
  | plain _ hnone =>
    rw [hnone] at hitems
    cases hitems

/-- The value under a key of an object that is spelled out is spelled out in it. -/
theorem Spelled.get? {v w : Value} {key : String} (h : Spelled v) (hw : v.get? key = some w) :
    Spelled w := by
  obtain ⟨ms, hms, hlookup⟩ := Option.bind_eq_some_iff.1 hw
  obtain ⟨_, _, rfl, -⟩ := List.lookup_eq_some_iff.1 hlookup
  exact h.of_mem_members hms (List.mem_append_right _ List.mem_cons_self)

end Coverage.Json.Value
