/-
  Coverage.Proofs.Json.Strings

  A string is read back from between its quotes.

  The lexer turns every character of a string into one piece, whether it was written as
  itself, as a letter behind a backslash or as a code (`scanText_escaped`), and the pieces
  of a string spell that string (`string?_pieces`).
-/

import Coverage.Json.Document
import Coverage.Json.Printer

namespace Coverage.Json

/-- The piece that a character is read back as. -/
def pieceOf (c : Char) : Piece :=
  if (escaping.short.lookup c).isNone ∧ c.toNat < escaping.firstPlain then .code c.toNat
  else .char (some c)

/-- The pieces that a string is read back as. -/
def pieces (s : String) : RawText :=
  s.toList.map pieceOf

/-! ## One character -/

/-- Characters that are escaped by a letter of their own. -/
theorem scanText_short : ∀ e ∈ escaping.short, ∀ rest,
    scanText (some '\\' :: some e.2 :: rest) = consPiece (.char (some e.1)) (scanText rest) := by
  simp only [escaping, List.forall_mem_cons]
  exact ⟨fun _ => rfl, fun _ => rfl, fun _ => rfl, fun _ => rfl, fun _ => rfl, fun _ => rfl,
    fun _ => rfl, fun _ h => absurd h List.not_mem_nil⟩

/-- The four digits that the printer writes for a control character are its code. -/
theorem hexCode?_digits : ∀ n, n < 0x20 →
    hexCode? '0' '0' (Nat.digitChar (n / 16)) (Nat.digitChar (n % 16)) = some n := by
  decide

/-- An escape by code is read as one piece. -/
theorem scanText_code {n : Nat} (h : n < 0x20) (rest : Chars) :
    scanText ((codeEscape n).map some ++ rest) = consPiece (.code n) (scanText rest) := by
  simp only [codeEscape, List.map_cons, List.map_nil, List.cons_append, List.nil_append]
  rw [scanText, hexCode?_digits n h]

/-- A character that needs no escape is read as itself. -/
theorem scanText_plain {c : Char} (hquote : c ≠ '"') (hslash : c ≠ '\\') (h : isControl c = false)
    (rest : Chars) : scanText (some c :: rest) = consPiece (.char (some c)) (scanText rest) := by
  rw [scanText.eq_def]
  split <;> simp_all

/-- A character is read back as its piece. -/
theorem scanText_escapeChar (c : Char) (rest : Chars) :
    scanText ((escapeChar c).map some ++ rest) = consPiece (pieceOf c) (scanText rest) := by
  unfold escapeChar pieceOf
  cases hshort : escaping.short.lookup c with
  | some letter =>
    -- A character that is escaped by a letter is one of a few, looked at in turn.
    obtain ⟨before, after, hsplit, -⟩ := List.lookup_eq_some_iff.1 hshort
    have hmem : (c, letter) ∈ escaping.short := by
      rw [hsplit]
      exact List.mem_append_right _ List.mem_cons_self
    simp only [Option.isNone_some, Bool.false_eq_true, false_and, if_false]
    exact scanText_short (c, letter) hmem rest
  | none =>
    simp only [Option.isNone_none, true_and]
    split
    · exact scanText_code ‹_› rest
    · rename_i hplain
      have hquote : c ≠ '"' := by
        rintro rfl
        cases hshort
      have hslash : c ≠ '\\' := by
        rintro rfl
        cases hshort
      have hcontrol : isControl c = false := by
        simpa [isControl, escaping] using hplain
      exact scanText_plain hquote hslash hcontrol rest

/-! ## Whole strings -/

/-- The escapes of a string are read back piece by piece, up to the closing quote. -/
theorem scanText_escaped (cs : List Char) (rest : Chars) :
    scanText ((cs.flatMap escapeChar).map some ++ some '"' :: rest)
      = some (cs.map pieceOf, rest) := by
  induction cs with
  | nil => rfl
  | cons c cs ih =>
    rw [List.flatMap_cons, List.map_append, List.append_assoc, scanText_escapeChar, ih]
    rfl

/-- A code below the surrogates stands for itself. -/
theorem chars?_code {n : Nat} (h : n < 0xD800) (rest : RawText) :
    RawText.chars? (.code n :: rest) = (RawText.chars? rest).map (Char.ofNat n :: ·) := by
  have hhigh : RawText.isHigh n = false := by
    simp only [RawText.isHigh, Bool.and_eq_false_iff, decide_eq_false_iff_not]
    omega
  have hlow : RawText.isLow n = false := by
    simp only [RawText.isLow, Bool.and_eq_false_iff, decide_eq_false_iff_not]
    omega
  rw [RawText.chars?.eq_def]
  split <;> simp_all

/-- The piece that a character is read as means that character. -/
theorem chars?_pieceOf (c : Char) (rest : RawText) :
    RawText.chars? (pieceOf c :: rest) = (RawText.chars? rest).map (c :: ·) := by
  unfold pieceOf
  split
  · rename_i hcode
    have hsmall : c.toNat < 0xD800 := by
      have hbound : c.toNat < 0x20 := hcode.2
      omega
    rw [chars?_code hsmall, Char.ofNat_toNat]
  · rfl

/-- The pieces of a string spell it. -/
theorem string?_pieces (s : String) : (pieces s).string? = some s := by
  have hchars : ∀ cs : List Char, RawText.chars? (cs.map pieceOf) = some cs := by
    intro cs
    induction cs with
    | nil => rfl
    | cons c cs ih =>
      rw [List.map_cons, chars?_pieceOf, ih]
      rfl
  rw [pieces, RawText.string?, hchars, Option.map_some, String.ofList_toList]

end Coverage.Json
