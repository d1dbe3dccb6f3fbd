/-
  Coverage.Proofs.Source.Freshness

  The tokens that contents have.

  The microseconds of a modification time are less than a second, and the digest of some bytes
  is written in hexadecimal digits.  So the token of every content can be written to a bundle,
  if only the seconds are in range (`Given.valid`).
-/

import Coverage.Proofs.Bundle.RoundTrip
import Coverage.Proofs.Source.Times
import Coverage.Session.Surroundings

namespace Coverage

open Text.Decimal (bound32 bound63)

/-! ## Digests -/

namespace Source.Digest

theorem isHexDigit_digitChar {n : Nat} (h : n < 16) :
    Bundle.isHexDigit (Nat.digitChar n) = true := by
  revert n
  decide

theorem isHexDigit_of_mem_hexByte {b : UInt8} {c : Char} (h : c ∈ hexByte b) :
    Bundle.isHexDigit c = true := by
  have hb : b.toNat < 256 := b.toNat_lt
  rcases (by simpa [hexByte] using h : c = _ ∨ c = _) with rfl | rfl
  · exact isHexDigit_digitChar (by omega)
  · exact isHexDigit_digitChar (by omega)

theorem ofBytes_hex (bytes : Bytes) : (ofBytes bytes).toList.all Bundle.isHexDigit = true := by
  rw [ofBytes, String.toList_ofList, List.all_eq_true]
  intro c hc
  obtain ⟨b, -, hc⟩ := List.mem_flatMap.1 hc
  exact isHexDigit_of_mem_hexByte hc

theorem ofBytes_ne_empty (bytes : Bytes) : ofBytes bytes ≠ "" := by
  intro h
  have hnil := String.ofList_eq_empty_iff.1 h
  have hlength : (treeNode 0 (pieces 1024 bytes)).digest.toList.length = 8 := Vector.length_toList
  cases hwords : (treeNode 0 (pieces 1024 bytes)).digest.toList with
  | nil =>
    rw [hwords] at hlength
    cases hlength
  | cons w rest =>
    -- The first byte of the first word has two digits.
    rw [hwords] at hnil
    cases hnil

end Source.Digest

/-! ## Tokens -/

namespace Freshness

/-- A token that a content can have. -/
def Given : Freshness → Prop
  | .modified _ micros => micros < bound32
  | .digest hex => hex ≠ "" ∧ hex.toList.all Bundle.isHexDigit = true

/-- A modification time with seconds of 64 bits, or a digest. -/
def InRange : Freshness → Prop
  | .modified seconds _ => -(bound63 : Int) ≤ seconds ∧ seconds < bound63
  | .digest _ => True

theorem Given.valid {t : Freshness} (h : t.Given) (hrange : t.InRange) : t.Valid := by
  cases t with
  | modified seconds micros => exact ⟨hrange.1, hrange.2, h⟩
  | digest hex => exact h

theorem given_ofNanos (nanos : Int) : (ofNanos nanos).Given := by
  have htime := isTime_ofNanos nanos
  have hroom : microsPerSecond < bound32 := by decide
  cases htoken : ofNanos nanos with
  | modified seconds micros =>
    rw [htoken] at htime
    exact Nat.lt_trans htime hroom
  | digest hex =>
    rw [htoken] at htime
    exact htime.elim

end Freshness

theorem Surroundings.given_content {e : Surroundings} {id : SourceId} {r : Revision} {bytes : Bytes}
    (h : e.content id = .ok (r, bytes)) : r.freshness.Given := by
  unfold content at h
  cases id with
  | file path =>
    simp only at h
    split at h
    · cases h
      exact Freshness.given_ofNanos _
    · cases h
  | resource uri =>
    simp only at h
    split at h
    · cases h
      exact ⟨Source.Digest.ofBytes_ne_empty _, Source.Digest.ofBytes_hex _⟩
    · cases h

end Coverage
