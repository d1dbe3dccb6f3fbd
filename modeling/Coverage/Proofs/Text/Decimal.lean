/-
  Coverage.Proofs.Text.Decimal

  A number is read back from its digits, by every reader whose range it lies in.
-/

import Coverage.Text.Decimal

namespace Coverage.Text.Decimal

theorem isDigit_of_mem_ofNat {n : Nat} {c : Char} (h : c ∈ ofNat n) : c.isDigit = true :=
  Nat.isDigit_of_mem_toDigits (by decide) (by decide) h

theorem ofNat_ne_nil (n : Nat) : ofNat n ≠ [] :=
  Nat.toDigits_ne_nil

/-- The digits of a number have a first one. -/
theorem ofNat_eq_cons (n : Nat) : ∃ d ds, ofNat n = d :: ds ∧ d.isDigit = true := by
  obtain ⟨d, ds, hds⟩ := List.exists_cons_of_ne_nil (ofNat_ne_nil n)
  refine ⟨d, ds, hds, isDigit_of_mem_ofNat (n := n) ?_⟩
  rw [hds]
  exact List.mem_cons_self

theorem ne_of_isDigit {c d : Char} (hc : c.isDigit = true) (hd : d.isDigit = false) : c ≠ d := by
  rintro rfl
  rw [hc] at hd
  cases hd

theorem not_mem_ofNat {c : Char} (h : c.isDigit = false) (n : Nat) : c ∉ ofNat n := by
  intro hmem
  rw [isDigit_of_mem_ofNat hmem] at h
  cases h

theorem digits?_ofNat (n : Nat) : digits? (ofNat n) = some n := by
  have hne : (ofNat n).isEmpty = false := by
    rw [List.isEmpty_eq_false_iff]
    exact ofNat_ne_nil n
  have hall : (ofNat n).all Char.isDigit = true :=
    List.all_eq_true.2 fun c hc => isDigit_of_mem_ofNat hc
  rw [digits?, hne, hall]
  simp only [Bool.not_true, Bool.or_self, Bool.false_eq_true, if_false]
  rw [ofNat, Nat.ofDigitChars_ten_toDigits]

/-- Different numbers have different digits. -/
theorem ofNat_inj {m n : Nat} (h : ofNat m = ofNat n) : m = n := by
  have hread := digits?_ofNat m
  rw [h, digits?_ofNat] at hread
  exact (Option.some.inj hread).symm

theorem unsigned?_ofNat {bound n : Nat} (h : n < bound) : unsigned? bound (ofNat n) = some n := by
  obtain ⟨d, ds, hds, hd⟩ := ofNat_eq_cons n
  have hplus : d ≠ '+' := ne_of_isDigit hd (by decide)
  have hdigits := digits?_ofNat n
  rw [hds] at hdigits ⊢
  have hbody : unsigned? bound (d :: ds) = (digits? (d :: ds)).filter (· < bound) := by
    unfold unsigned?
    split
    · rename_i heq
      exact absurd (List.cons.inj heq).1 hplus
    · rfl
  rw [hbody, hdigits, Option.filter_some, if_pos (by simpa using h)]

theorem signed?_ofNat {bound n : Nat} (h : n < bound) :
    signed? bound (ofNat n) = some (Int.ofNat n) := by
  obtain ⟨d, ds, hds, hd⟩ := ofNat_eq_cons n
  have hminus : d ≠ '-' := ne_of_isDigit hd (by decide)
  have hread := unsigned?_ofNat h
  rw [hds] at hread ⊢
  unfold signed?
  split
  · rename_i heq
    exact absurd (List.cons.inj heq).1 hminus
  · rw [hread]
    rfl

end Coverage.Text.Decimal
