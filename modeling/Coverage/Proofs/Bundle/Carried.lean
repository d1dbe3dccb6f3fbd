/-
  Coverage.Proofs.Bundle.Carried

  What comes out of a bundle in place of the entries that went into it.

  Of a proper entry in order a bundle keeps all but the numbers of its exits (`carried`).  As
  a record does not show these numbers, entries and what is carried of them have one text
  (`encode_carried`); and entries that stand in order of identity are decoded to just that
  (`decode_encode`).
-/

import Coverage.Proofs.Bundle.Range
import Coverage.Proofs.Bundle.Renumber

namespace Coverage

open Text.Utf8 (ofString ofString_lt_ofString)

theorem SiteMap.Fits.renumbered {m : SiteMap} (h : m.Fits) : m.renumbered.Fits where
  lines := h.lines
  exits := fun e he => by
    obtain ⟨⟨a, ha, hline⟩, b, hb, hcandidates⟩ := Bundle.exits_renumbered he
    rw [← hline, ← hcandidates]
    exact ⟨(h.exits a ha).1, (h.exits b hb).2⟩
  functions := h.functions

namespace Bundle

/-- What comes out of a bundle for an entry: the identity that its text names, its token, and
    its map with the exits of every line numbered in a row. -/
def carried (e : Revision × SiteMap) : Revision × SiteMap :=
  (⟨(SourceId.ofText? e.1.id.text).getD e.1.id, e.1.freshness⟩, e.2.renumbered)

/-! ## Single entries -/

section

variable {e : Revision × SiteMap} (h : Proper e)

include h

theorem ofText?_carried :
    SourceId.ofText? e.1.id.text = some (carried e).1.id ∧ (carried e).1.id.text = e.1.id.text := by
  obtain ⟨id, hid, htext⟩ := SourceId.exists_ofText? h.named
  have hcarried : (carried e).1.id = id := by
    show (SourceId.ofText? e.1.id.text).getD e.1.id = id
    rw [hid]
    rfl
  rw [hcarried]
  exact ⟨hid, htext⟩

theorem portable_carried (hcanonical : e.2.canonical = e.2) : Portable (carried e) where
  named := by
    obtain ⟨hid, htext⟩ := ofText?_carried h
    rw [htext]
    exact hid
  token := h.token
  regular := regular_renumbered ⟨hcanonical, h.spans⟩
  fits := h.fits.renumbered

end

/-! ## Whole bundles -/

section

variable {entries : List (Revision × SiteMap)}
  (h : ∀ e ∈ entries, Proper e ∧ e.2.canonical = e.2)

include h

/-- A bundle has the same text whether the exits were numbered in a row before or not. -/
theorem encode_carried : encode (entries.map carried) = encode entries := by
  have hrecords : recordsOf (entries.map carried) = recordsOf entries := by
    unfold recordsOf
    rw [List.map_map]
    congr 1
    refine List.map_congr_left fun e he => ?_
    obtain ⟨hproper, hcanonical⟩ := h e he
    exact Prod.ext (ofText?_carried hproper).2 (of_renumbered ⟨hcanonical, hproper.spans⟩ _)
  rw [encode, hrecords]
  rfl

/-- Entries that stand in order of identity come out of their bundle in that order. -/
theorem decode_encode
    (hascending : entries.Pairwise fun a b => ofString a.1.id.text < ofString b.1.id.text) :
    decode (Text.Utf8.encode (encode entries)) = .ok (entries.map carried) := by
  have htext : ∀ e ∈ entries, (carried e).1.id.text = e.1.id.text := fun e he =>
    (ofText?_carried (h e he).1).2
  -- The carried entries stand in the order of the bundle already.
  have hordered : Keyed.Ascending ((entries.map carried).map fun e => (e.1.id.text, e)) := by
    unfold Keyed.Ascending
    rw [List.map_map, List.pairwise_map]
    refine hascending.imp_of_mem fun {a b} ha hb hab => ?_
    show (carried a).1.id.text < (carried b).1.id.text
    rw [htext a ha, htext b hb]
    exact ofString_lt_ofString.1 hab
  have hkeys : ((entries.map carried).map (·.1.id.text)).Nodup := by
    have hfirst := List.pairwise_map.2 (hordered.imp Std.ne_of_lt)
    rw [List.map_map] at hfirst
    exact hfirst
  have hportable : ∀ e ∈ entries.map carried, Portable e := by
    intro e he
    obtain ⟨a, ha, rfl⟩ := List.mem_map.1 he
    exact portable_carried (h a ha).1 (h a ha).2
  -- What is carried can be written too, and its text is the one that was written.
  have hspells := spells_records hkeys hportable
  rw [← encode_carried h, decode, Text.Utf8.decode_encode, encode,
    Json.ofChars?_render hspells.exact, Option.bind_some, hspells.back]
  show entriesOf (recordsOf (entries.map carried)) = _
  rw [entriesOf_recordsOf hkeys hportable, inOrder, Keyed.ofList_of_ascending hordered,
    List.map_map]
  exact congrArg Except.ok (List.map_id _)

end

end Bundle
end Coverage
