/-
  Coverage.Proofs.Bundle.NormalForm

  The text that a bundle has once it was read and written again.

  Whatever the bytes were, the entries read from them are proper, canonical and in order of
  identity, so writing them gives a bundle that is read as what it carries of them
  (`decode_encode`), and written again as the same bytes.  Only the exits of points that
  shared a line can come back with other numbers, since they stand in one point from then on:
  where the points of every record are on different lines, the entries come back as they
  were (`carried_entryOf`).
-/

import Coverage.Proofs.Bundle.Carried
import Mathlib

namespace Coverage.Bundle

open Text.Utf8 (ofString ofString_lt_ofString)

variable {bytes : Bytes} {es : List (Revision × SiteMap)} {e : Revision × SiteMap}
  {records : List (String × Record)} {key : String} {r : Record}

/-- The records that some bytes spell out, by identity. -/
def recordsIn? (bytes : Bytes) : Option (List (String × Record)) :=
  (Json.Document.ofChars? (Text.Utf8.decode bytes)).bind readRecords

/-- No two points of a record are on one line. -/
def Record.Unshared (r : Record) : Prop :=
  (r.points.map Point.line).Nodup

instance : DecidablePred Record.Unshared := fun r =>
  inferInstanceAs (Decidable (r.points.map Point.line).Nodup)

/-! ## Entries that were read -/

/-- Bytes are decoded if they are records, and these are entries. -/
theorem decode_eq_ok :
    decode bytes = .ok es ↔ ∃ records, recordsIn? bytes = some records
      ∧ entriesOf records = .ok es := by
  unfold decode
  rw [← recordsIn?]
  cases recordsIn? bytes with
  | none => simp
  | some records => simp

/-- An entry has the identity of its key, and the map of its record. -/
theorem entryOf_eq_ok (h : entryOf key r = .ok e) :
    SourceId.ofText? key = some e.1.id ∧ e.1.id.text = key ∧ e.2 = r.map := by
  unfold entryOf at h
  split at h
  · cases h
  · rename_i id hid
    obtain ⟨t, -, h⟩ := bind_eq_ok.1 h
    cases h
    exact ⟨hid, SourceId.ofText?_text hid, rfl⟩

/-- Entries have the keys of their records, in the same order. -/
theorem texts_entriesOf (h : entriesOf records = .ok es) :
    es.map (·.1.id.text) = records.map Prod.fst := by
  induction records generalizing es with
  | nil =>
    cases h
    rfl
  | cons first rest ih =>
    rw [entriesOf, List.mapM_cons] at h
    obtain ⟨e, he, h⟩ := bind_eq_ok.1 h
    obtain ⟨others, hothers, h⟩ := bind_eq_ok.1 h
    cases h
    rw [List.map_cons, List.map_cons, (entryOf_eq_ok he).2.1, ih hothers]

/-- Records are in order of key, however they were written. -/
theorem ascending_recordsIn? (h : recordsIn? bytes = some records) : Keyed.Ascending records := by
  obtain ⟨d, -, hread⟩ := Option.bind_eq_some_iff.1 h
  cases d with
  | object members =>
    obtain ⟨read, -, rfl⟩ := Option.map_eq_some_iff.1 hread
    exact Keyed.ascending_ofList read
  | _ => cases hread

/-- Entries that were read stand in order of identity, each once. -/
theorem ascending_decode (h : decode bytes = .ok es) :
    es.Pairwise fun a b => ofString a.1.id.text < ofString b.1.id.text := by
  obtain ⟨records, hrecords, hentries⟩ := decode_eq_ok.1 h
  have hascending : (records.map Prod.fst).Pairwise (· < ·) :=
    List.pairwise_map.2 (ascending_recordsIn? hrecords)
  rw [← texts_entriesOf hentries, List.pairwise_map] at hascending
  exact hascending.imp ofString_lt_ofString.2

/-- All maps that are decoded are canonical. -/
theorem canonical_decode (h : decode bytes = .ok es) : ∀ e ∈ es, e.2.canonical = e.2 := by
  intro e he
  obtain ⟨records, -, hentries⟩ := decode_eq_ok.1 h
  obtain ⟨r, -, hentry⟩ := mem_of_mapM_eq_ok hentries he
  rw [(entryOf_eq_ok hentry).2.2]
  exact SiteMap.canonical_canonical _

/-! ## Entries that come back as they were -/

/-- Points on different lines number the exits of every line in a row, however they are
    ordered. -/
theorem regular_map (h : r.Unshared) : r.map.Regular where
  canonical := SiteMap.canonical_canonical _
  numbered := fun line => by
    have hnumbers := SiteMap.index_sorted (index_flatMap h line)
    have hordered : SiteMap.exitsOn line r.map.exits
        = (SiteMap.exitsOn line ((r.points.flatMap Point.numbered).mergeSort SiteMap.exitLE)).map
          BranchExit.ordered := List.filter_map
    rw [hordered, List.map_map, List.length_map]
    exact hnumbers
  spans := spans_map r

/-- A regular map is numbered as it would be anew. -/
theorem renumbered_of_regular {m : SiteMap} (h : m.Regular) : m.renumbered = m := by
  have hback := map_of h (.digest "")
  rwa [map_of_orderly ⟨h.canonical, h.spans⟩] at hback

/-- So an entry without repeated points is carried over as it is. -/
theorem carried_entryOf (hentry : entryOf key r = .ok e) (h : r.Unshared) : carried e = e := by
  obtain ⟨hnamed, htext, hmap⟩ := entryOf_eq_ok hentry
  have hid : (SourceId.ofText? e.1.id.text).getD e.1.id = e.1.id := by
    rw [htext, hnamed]
    rfl
  rw [carried, hid, hmap, renumbered_of_regular (regular_map h), ← hmap]

/-! ## Bundles that were read -/

/-- Whatever bytes a bundle is read from, the text that is written of it is read again and
    written as the same bytes; and it is read as the same entries, unless points shared a
    line. -/
theorem decode_reencoded (h : decode bytes = .ok es) :
    ∃ again, decode (Text.Utf8.encode (encode es)) = .ok again
      ∧ Text.Utf8.encode (encode again) = Text.Utf8.encode (encode es)
      ∧ ((∀ records, recordsIn? bytes = some records → ∀ r ∈ records, r.2.Unshared) →
        again = es) := by
  have hentries : ∀ e ∈ es, Proper e ∧ e.2.canonical = e.2 := fun e he =>
    ⟨proper_decode h e he, canonical_decode h e he⟩
  refine ⟨es.map carried, decode_encode hentries (ascending_decode h), ?_, fun hunshared => ?_⟩
  · rw [encode_carried hentries]
  · obtain ⟨records, hrecords, hread⟩ := decode_eq_ok.1 h
    have hsame : ∀ e ∈ es, carried e = id e := by
      intro e he
      obtain ⟨r, hr, hentry⟩ := mem_of_mapM_eq_ok hread he
      exact carried_entryOf hentry (hunshared records hrecords r hr)
    rw [List.map_congr_left hsame, List.map_id]

/-- A bundle of another writer, with two points on one line. -/
def shared : Bytes :=
  ofString "\x7b\"b\": [null, \"0a\", [3, 1, 3], [[4, [[7, 2]]], [4, [[9]]]], []]\x7d"

/-- The entries of it: the points have numbered their exits each by itself. -/
def sharedEntries : List (Revision × SiteMap) :=
  [(⟨.file "b", .digest "0a"⟩, ⟨[1, 3], [⟨4, 0, [2, 7]⟩, ⟨4, 0, [9]⟩], []⟩)]

/-- A bundle of another writer whose points are on different lines, and in no order. -/
def apart : Bytes :=
  ofString "\x7b\"b\": [null, \"0a\", [], [[4, [[7, 2]]], [1, []]], [[\"f\", 5, 2, null]]]\x7d"

/-- The entries of it: a function that ended before it began has its first line alone. -/
def apartEntries : List (Revision × SiteMap) :=
  [(⟨.file "b", .digest "0a"⟩, ⟨[], [⟨4, 0, [2, 7]⟩], [⟨"f", 5, 5, none⟩]⟩)]

theorem decode_reencoded_foreign :
    (decode shared = .ok sharedEntries
      ∧ ∃ again, decode (Text.Utf8.encode (encode sharedEntries)) = .ok again
        ∧ Text.Utf8.encode (encode again) = Text.Utf8.encode (encode sharedEntries))
      ∧ decode apart = .ok apartEntries
      ∧ decode (Text.Utf8.encode (encode apartEntries)) = .ok apartEntries := by
  have hshared : decode shared = .ok sharedEntries := by cbv
  have hapart : decode apart = .ok apartEntries := by cbv
  have hunshared : ∀ records, recordsIn? apart = some records → ∀ r ∈ records, r.2.Unshared := by
    have hall : ∀ records ∈ recordsIn? apart, ∀ r ∈ records, r.2.Unshared := by
      decide +kernel
    exact hall
  refine ⟨⟨hshared, ?_⟩, hapart, ?_⟩
  · obtain ⟨again, hagain, hsame, -⟩ := decode_reencoded hshared
    exact ⟨again, hagain, hsame⟩
  · obtain ⟨again, hagain, -, hback⟩ := decode_reencoded hapart
    rw [hagain, hback hunshared]

end Coverage.Bundle
