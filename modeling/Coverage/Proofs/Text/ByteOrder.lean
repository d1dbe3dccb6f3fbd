/-
  Coverage.Proofs.Text.ByteOrder

  Strings are ordered as their bytes are.

  A character with a larger code has bytes that come later: in the byte that says how many
  there are, or in the first place where two characters of one length differ.
-/

import Coverage.Text.Utf8

namespace Coverage.Text.Utf8

theorem toUInt8_lt_toUInt8 {a b : Nat} (ha : a < 0x100) (hb : b < 0x100) :
    a.toUInt8 < b.toUInt8 ↔ a < b := by
  rw [UInt8.lt_iff_toNat_lt, toNat_toUInt8_of_lt ha, toNat_toUInt8_of_lt hb]

theorem toUInt8_inj {a b : Nat} (ha : a < 0x100) (hb : b < 0x100) :
    a.toUInt8 = b.toUInt8 ↔ a = b := by
  rw [← UInt8.toNat_inj, toNat_toUInt8_of_lt ha, toNat_toUInt8_of_lt hb]

/-- Two lists of bytes below 256 compare at their first byte, and then at the rest. -/
theorem cons_lt_cons {a b : Nat} (ha : a < 0x100) (hb : b < 0x100) {x y : Bytes} :
    a.toUInt8 :: x < b.toUInt8 :: y ↔ a < b ∨ (a = b ∧ x < y) := by
  rw [List.cons_lt_cons_iff, toUInt8_lt_toUInt8 ha hb, toUInt8_inj ha hb]

theorem encodeChar_lt {c d : Char} (h : c < d) (x y : Bytes) :
    encodeChar c ++ x < encodeChar d ++ y := by
  have hcd : c.toNat < d.toNat := h
  have hd : d.toNat < 0x110000 := by
    have hvalid : d.toNat < 0xD800 ∨ (0xDFFF < d.toNat ∧ d.toNat < 0x110000) := d.valid
    omega
  unfold encodeChar
  generalize c.toNat = n at hcd
  generalize d.toNat = m at hcd hd
  simp only
  -- Fewer bytes come first by the lead byte; as many bytes compare one by one.
  repeat' split
  all_goals simp (disch := omega) only [List.cons_append, List.nil_append, cons_lt_cons]
  all_goals omega

theorem encode_cons (c : Char) (cs : List Char) : encode (c :: cs) = encodeChar c ++ encode cs :=
  rfl

theorem encodeChar_ne_nil (c : Char) : encodeChar c ≠ [] := by
  unfold encodeChar
  simp only
  repeat' split
  all_goals simp

theorem append_lt_append_left (p : Bytes) {x y : Bytes} (h : x < y) : p ++ x < p ++ y := by
  induction p with
  | nil => exact h
  | cons b rest ih =>
    rw [List.cons_append, List.cons_append, List.cons_lt_cons_iff]
    exact .inr ⟨rfl, ih⟩

theorem encode_lt {as bs : List Char} (h : as < bs) : encode as < encode bs := by
  induction as generalizing bs with
  | nil =>
    cases bs with
    | nil => exact absurd h (List.lt_irrefl [])
    | cons b bs =>
      obtain ⟨x, rest, hx⟩ := List.exists_cons_of_ne_nil (encodeChar_ne_nil b)
      rw [encode_cons, hx]
      exact List.nil_lt_cons x _
  | cons a as ih =>
    cases bs with
    | nil => exact absurd h (List.not_lt_nil _)
    | cons b bs =>
      rw [encode_cons, encode_cons]
      rcases List.cons_lt_cons_iff.1 h with hab | ⟨rfl, hrest⟩
      · exact encodeChar_lt hab _ _
      · exact append_lt_append_left _ (ih hrest)

/-- The order of strings is the order of their bytes. -/
theorem ofString_lt_ofString {a b : String} : ofString a < ofString b ↔ a < b := by
  constructor
  · intro h
    rcases Std.lt_trichotomy a b with hab | rfl | hba
    · exact hab
    · exact absurd h (List.lt_irrefl _)
    · exact absurd h (List.lt_asymm (encode_lt hba))
  · intro h
    exact encode_lt h

end Coverage.Text.Utf8
