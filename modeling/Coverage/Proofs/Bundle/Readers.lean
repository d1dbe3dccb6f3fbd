/-
  Coverage.Proofs.Bundle.Readers

  The readers of a bundle take back what was written, the parts before the whole.

  `Spells read v a` says that the value `v` is read as `a` once it is written out.  There is
  one lemma for every pair of a writer and its reader; the fields of a structure are found
  by their names, which are distinct (`fields_written`).
-/

import Coverage.Bundle.Codec
import Coverage.Proofs.Chain
import Coverage.Proofs.Json.Machine
import Coverage.Proofs.Keyed

namespace Coverage.Bundle

open Json (Value Document Numeral)
open Text.Decimal (bound32 bound63 bound64)

/-- A value without reals that a reader takes to be `a`. -/
structure Spells {α : Type} (read : Reader α) (v : Value) (a : α) : Prop where
  exact : v.Exact
  back : read v.written = some a

/-! ## Numbers -/

/-- An integer that is written in decimal is read back exactly, as far as it fits 64 bits. -/
theorem integer?_ofInt {i : Int} (hlow : -(bound63 : Int) ≤ i) (hhigh : i < bound64) :
    (Numeral.ofInt i).integer? = some i := by
  -- The digits of a number mean that number.
  have hdigits : ∀ n, Nat.ofDigitChars 10 (Text.Decimal.ofNat n) 0 = n := fun n => by
    rw [Text.Decimal.ofNat, Nat.ofDigitChars_ten_toDigits]
  cases i with
  | ofNat n =>
    have hn : n < bound64 := Int.ofNat_lt.1 hhigh
    have hwhole : (Numeral.ofInt (.ofNat n)).whole = Text.Decimal.ofNat n := rfl
    have hsign : (Numeral.ofInt (.ofNat n)).negative = false :=
      decide_eq_false (Int.not_lt.2 (Int.natCast_nonneg n))
    unfold Numeral.integer?
    rw [hsign, hwhole, hdigits]
    show (if n < bound64 then some (n : Int) else none) = some (n : Int)
    rw [if_pos hn]
  | negSucc n =>
    have hn : n + 1 ≤ bound63 := by omega
    rw [Numeral.ofInt_negSucc]
    unfold Numeral.integer?
    rw [hdigits]
    show (if 0 < n + 1 ∧ n + 1 ≤ bound63 then some (-((n + 1 : Nat) : Int)) else none) = _
    rw [if_pos ⟨Nat.succ_pos n, hn⟩]
    rfl

/-- A number is read back by every reader in whose range it lies. -/
theorem spells_integer {i : Int} {inRange : Int → Bool} (hlow : -(bound63 : Int) ≤ i)
    (hhigh : i < bound64) (h : inRange i = true) : Spells (Reader.integer inRange) (.int i) i where
  exact := trivial
  back := by
    show (Numeral.ofInt i).integer?.filter inRange = some i
    rw [integer?_ofInt hlow hhigh, Option.filter_some, if_pos h]

/-- An integer of 64 bits is read back. -/
theorem spells_int64 {i : Int} (hlow : -(bound63 : Int) ≤ i) (hhigh : i < bound63) :
    Spells Reader.int64 (.int i) i := by
  have hbounds : bound63 < bound64 := by decide
  refine spells_integer hlow (by omega) ?_
  simp [hlow, hhigh]

/-- A number of 32 bits is read back. -/
theorem spells_nat {n : Nat} (h : n < bound32) : Spells Reader.nat32 (nat n) n where
  exact := trivial
  back := by
    have hbounds : bound32 < bound64 := by decide
    have hread : Spells (Reader.integer fun i => 0 ≤ i && i < bound32) (.int n) n := by
      refine spells_integer (by omega) (by omega) ?_
      simpa using h
    unfold Reader.nat32 nat
    rw [hread.back]
    rfl

/-! ## Texts and lists -/

theorem spells_text (s : String) : Spells Reader.text (.text s) s where
  exact := trivial
  back := Json.string?_pieces s

section Parts

variable {α β : Type} {read : Reader α} {value : α → Value}

/-- A list is read back if its items are. -/
theorem spells_list {as : List α} (h : ∀ a ∈ as, Spells read (value a) a) :
    Spells (Reader.list read) (.array (as.map value)) as where
  exact := by
    refine Json.exactItems_iff.2 fun v hv => ?_
    obtain ⟨a, ha, rfl⟩ := List.mem_map.1 hv
    exact (h a ha).exact
  back := by
    have hitems : as.mapM (fun a => read (value a).written) = some (as.map id) :=
      mapM_eq_pure fun a ha => (h a ha).back
    show (Json.writtenItems (as.map value)).mapM read = some as
    rw [Json.writtenItems_eq, List.mapM_map, List.mapM_map]
    rw [List.map_id] at hitems
    exact hitems

theorem spells_nats {ns : List Nat} (h : ∀ n ∈ ns, n < bound32) :
    Spells (Reader.list Reader.nat32) (nats ns) ns :=
  spells_list fun n hn => spells_nat (h n hn)

/-- A pair is read back if its members are. -/
theorem spells_pair {second : Reader β} {v w : Value} {a : α} {b : β} (hv : Spells read v a)
    (hw : Spells second w b) : Spells (Reader.pair read second) (.array [v, w]) (a, b) where
  exact := ⟨hv.exact, hw.exact, trivial⟩
  back := by
    show (do return (← read v.written, ← second w.written)) = some (a, b)
    rw [hv.back, hw.back]
    rfl

/-- A value that may be missing is read back by a reader that does not take null. -/
theorem spells_optional {a : Option α} (hnull : read .null = none)
    (h : ∀ x ∈ a, Spells read (value x) x) :
    Spells (Reader.optional read) (optional value a) a := by
  cases a with
  | none => exact ⟨trivial, rfl⟩
  | some x =>
    -- What is read as `x` is not null, so the reader does not stop there.
    obtain ⟨hexact, hback⟩ := h x rfl
    refine ⟨hexact, ?_⟩
    show Reader.optional read (value x).written = some (some x)
    unfold Reader.optional
    split
    · rename_i hwritten
      rw [hwritten, hnull] at hback
      cases hback
    · rw [hback, Option.map_some]

end Parts

/-! ## Structures -/

/-- Among distinct names a field stands at most once. -/
theorem length_filter_le_one {α : Type} {keyed : List (String × α)}
    (h : (keyed.map Prod.fst).Nodup) (name : String) :
    (keyed.filter (·.1 = name)).length ≤ 1 := by
  have hcount := List.nodup_iff_count.1 h name
  rw [List.count, List.countP_map, List.countP_eq_length_filter] at hcount
  exact hcount

/-- The fields of an object are found by their names. -/
theorem fields_written (members : List (String × Value)) (h : (members.map Prod.fst).Nodup) :
    Reader.fields (members.map Prod.fst) (Value.object members).written
      = some (members.map fun m => some m.2.written) := by
  have hread : (Json.writtenMembers members).mapM
      (fun m => (m.1.string?).map fun k => (k, m.2))
      = some (members.map fun m => (m.1, m.2.written)) := by
    rw [Json.writtenMembers_eq, List.mapM_map]
    refine mapM_eq_pure fun m _ => ?_
    simp only [Function.comp_apply, Json.string?_pieces, Option.map_some, Option.pure_def]
  have hkeys : ((members.map fun m => (m.1, m.2.written)).map Prod.fst).Nodup := by
    rw [List.map_map]
    exact h
  -- No field stands twice, and each is the one under its name.
  have hunique : ((members.map Prod.fst).all fun name =>
      ((members.map fun m => (m.1, m.2.written)).filter (·.1 = name)).length ≤ 1) = true :=
    List.all_eq_true.2 fun name _ => decide_eq_true (length_filter_le_one hkeys name)
  have hlookup : (members.map Prod.fst).map
      (fun name => (members.map fun m => (m.1, m.2.written)).lookup name)
      = members.map fun m => some m.2.written := by
    rw [List.map_map]
    refine List.map_congr_left fun m hm => ?_
    exact Keyed.lookup_of_mem hkeys (List.mem_map.2 ⟨m, hm, rfl⟩)
  rw [Value.written, Reader.fields, hread, Option.bind_eq_bind, Option.bind_some, hunique, hlookup]
  rfl

end Coverage.Bundle
