/-
  Coverage.Proofs.Bundle.RoundTrip

  A bundle is decoded to the entries it was made of, in order of identity.

  `Portable` says of an entry what a bundle relies on: its identity is the one that its key
  names, its token and the lines of its map are in range, and its map is regular.  The record
  of such an entry is read back from its JSON (`spells_record`), and gives the entry again
  (`entryOf_record`); the records of a bundle are in order of key already, so the reader has
  nothing to sort.
-/

import Coverage.Proofs.Bundle.Points
import Coverage.Proofs.Bundle.Readers
import Coverage.Proofs.Text.ByteOrder

namespace Coverage

open Text.Decimal (bound32 bound63)

/-- A modification time of 64 and 32 bits, or a digest in hexadecimal. -/
def Freshness.Valid : Freshness → Prop
  | .modified seconds micros => -(bound63 : Int) ≤ seconds ∧ seconds < bound63 ∧ micros < bound32
  | .digest hex => hex ≠ "" ∧ hex.toList.all Bundle.isHexDigit = true

/-- A site map all of whose lines have 32 bits. -/
structure SiteMap.Fits (m : SiteMap) : Prop where
  lines : ∀ l ∈ m.lines, l < bound32
  exits : ∀ e ∈ m.exits, e.line < bound32 ∧ ∀ l ∈ e.candidates, l < bound32
  functions : ∀ f ∈ m.functions,
    f.line < bound32 ∧ f.endLine < bound32 ∧ ∀ l ∈ f.bodyLine, l < bound32

namespace Bundle

open Json (Value Document)

/-- An entry that can be carried by a bundle. -/
structure Portable (e : Revision × SiteMap) : Prop where
  named : SourceId.ofText? e.1.id.text = some e.1.id
  token : e.1.freshness.Valid
  regular : e.2.Regular
  fits : e.2.Fits

/-! ## One record -/

theorem spells_point {p : Point} (hline : p.line < bound32)
    (hexits : ∀ ls ∈ p.exits, ∀ l ∈ ls, l < bound32) : Spells readPoint p.value p := by
  have hl := spells_nat hline
  have he : Spells (Reader.list (Reader.list Reader.nat32)) (.array (p.exits.map nats)) p.exits :=
    spells_list fun ls hls => spells_nats (hexits ls hls)
  have hnames : ["point", "exits"].Nodup := by decide
  have hfields := fields_written
    [("point", nat p.line), ("exits", .array (p.exits.map nats))] hnames
  simp only [List.map_cons, List.map_nil] at hfields
  refine ⟨⟨hl.exact, he.exact, trivial⟩, ?_⟩
  rw [readPoint, Point.value, hfields]
  simp only [Option.bind_eq_bind, Option.bind_some, Reader.required, hl.back, he.back]
  rfl

/-- A function is read back, whether or not it has a body line. -/
theorem spells_function {f : FunctionSpan} (hline : f.line < bound32)
    (hend : f.endLine < bound32) (hbody : ∀ l ∈ f.bodyLine, l < bound32) :
    Spells readFunction (functionValue f) f := by
  have hk := spells_text f.key
  have hl := spells_nat hline
  have he := spells_nat hend
  have hb : Spells (Reader.optional Reader.nat32) (optional nat f.bodyLine) f.bodyLine :=
    spells_optional rfl fun l hl => spells_nat (hbody l hl)
  have hnames : ["key", "line", "end_line", "body_line"].Nodup := by decide
  have hfields := fields_written [("key", .text f.key), ("line", nat f.line),
    ("end_line", nat f.endLine), ("body_line", optional nat f.bodyLine)] hnames
  simp only [List.map_cons, List.map_nil] at hfields
  -- All four fields are written as they are, and read by name.
  refine ⟨⟨hk.exact, hl.exact, he.exact, hb.exact, trivial⟩, ?_⟩
  rw [readFunction, functionValue, hfields]
  simp only [Option.bind_eq_bind, Option.bind_some, Reader.required, Reader.lenient, hk.back,
    hl.back, he.back, hb.back]
  rfl

/-- A record is read back if its parts are. -/
theorem spells_parts {r : Record}
    (ht : Spells (Reader.optional (Reader.pair Reader.int64 Reader.nat32))
      (optional (fun t => .array [.int t.1, nat t.2]) r.modified) r.modified)
    (hd : Spells (Reader.optional Reader.text) (optional .text r.digest) r.digest)
    (hl : Spells (Reader.list Reader.nat32) (nats r.lines) r.lines)
    (hp : Spells (Reader.list readPoint) (.array (r.points.map Point.value)) r.points)
    (hf : Spells (Reader.list readFunction) (.array (r.functions.map functionValue))
      r.functions) : Spells readRecord r.value r := by
  have hnames : ["mtime", "checksum", "lines", "branches", "functions"].Nodup := by decide
  have hfields := fields_written
    [("mtime", optional (fun t => .array [.int t.1, nat t.2]) r.modified),
      ("checksum", optional .text r.digest),
      ("lines", nats r.lines),
      ("branches", .array (r.points.map Point.value)),
      ("functions", .array (r.functions.map functionValue))] hnames
  simp only [List.map_cons, List.map_nil] at hfields
  refine ⟨⟨ht.exact, hd.exact, hl.exact, hp.exact, hf.exact, trivial⟩, ?_⟩
  rw [readRecord, Record.value, hfields]
  simp only [Option.bind_eq_bind, Option.bind_some, Reader.required, Reader.lenient, ht.back,
    hd.back, hl.back, hp.back, hf.back]
  rfl

section Tokens

variable {t : Freshness} (h : t.Valid) (m : SiteMap)

include h

/-- A time is read back, or nothing if the token is a digest. -/
theorem spells_modified : Spells (Reader.optional (Reader.pair Reader.int64 Reader.nat32))
    (optional (fun t => .array [.int t.1, nat t.2]) (Record.of t m).modified)
    (Record.of t m).modified := by
  refine spells_optional rfl fun time htime => ?_
  cases t with
  | modified seconds micros =>
    cases htime
    exact spells_pair (spells_int64 h.1 h.2.1) (spells_nat h.2.2)
  | digest hex => cases htime

omit h in
/-- A digest is read back, or nothing if the token is a time. -/
theorem spells_digest : Spells (Reader.optional Reader.text)
    (optional .text (Record.of t m).digest) (Record.of t m).digest :=
  spells_optional rfl fun hex _ => spells_text hex

/-- The token of a record is the one it was made with. -/
theorem freshness_of (id : String) : (Record.of t m).freshness id = .ok t := by
  cases t with
  | modified seconds micros => rfl
  | digest hex =>
    show (if hex ≠ "" ∧ hex.toList.all isHexDigit then Except.ok (Freshness.digest hex)
      else .error (Fault.malformedDigest id)) = _
    have hdigits : hex ≠ "" ∧ hex.toList.all isHexDigit = true := h
    rw [if_pos hdigits]

end Tokens

section Entries

variable {e : Revision × SiteMap} (h : Portable e)

include h

/-- The exits of a map are read back, point by point. -/
theorem spells_points :
    Spells (Reader.list readPoint) (.array ((pointsOf e.2.exits).map Point.value))
      (pointsOf e.2.exits) := by
  refine spells_list fun p hp => ?_
  obtain ⟨⟨x, hx, hline⟩, hcandidates⟩ := mem_pointsOf hp
  refine spells_point (hline ▸ (h.fits.exits x hx).1) fun ls hls => ?_
  obtain ⟨y, hy, rfl⟩ := hcandidates ls hls
  exact (h.fits.exits y hy).2

theorem spells_functions :
    Spells (Reader.list readFunction) (.array (e.2.functions.map functionValue))
      e.2.functions := by
  refine spells_list fun f hf => ?_
  obtain ⟨hline, hend, hbody⟩ := h.fits.functions f hf
  exact spells_function hline hend hbody

/-- The record of an entry is read back as it was written. -/
theorem spells_record :
    Spells readRecord (Record.of e.1.freshness e.2).value (Record.of e.1.freshness e.2) :=
  spells_parts (spells_modified h.token e.2) (spells_digest e.2) (spells_nats h.fits.lines)
    (spells_points h) (spells_functions h)

/-- The record of an entry gives that entry again. -/
theorem entryOf_record : entryOf e.1.id.text (Record.of e.1.freshness e.2) = .ok e := by
  unfold entryOf
  rw [h.named]
  simp only
  rw [freshness_of h.token, ok_bind, map_of h.regular]
  rfl

end Entries

/-! ## Whole bundles -/

/-- Entries in order of identity, each under its key. -/
def inOrder (entries : List (Revision × SiteMap)) : List (String × (Revision × SiteMap)) :=
  Keyed.ofList (entries.map fun e => (e.1.id.text, e))

/-- A bundle has a record for each entry, in order of identity. -/
theorem recordsOf_eq (entries : List (Revision × SiteMap)) :
    recordsOf entries
      = (inOrder entries).map fun e => (e.1, Record.of e.2.1.freshness e.2.2) := by
  rw [inOrder, ← Keyed.ofList_map fun e : Revision × SiteMap => Record.of e.1.freshness e.2,
    List.map_map]
  rfl

section Bundles

variable {entries : List (Revision × SiteMap)} (hkeys : (entries.map (·.1.id.text)).Nodup)

include hkeys

/-- Putting entries with distinct keys in order loses none of them. -/
theorem perm_inOrder : (inOrder entries).Perm (entries.map fun e => (e.1.id.text, e)) := by
  refine Keyed.perm_ofList ?_
  rw [List.map_map]
  exact hkeys

/-- Each stands under the text of its own identity. -/
theorem mem_inOrder {q : String × (Revision × SiteMap)} (hq : q ∈ inOrder entries) :
    q.1 = q.2.1.id.text ∧ q.2 ∈ entries := by
  obtain ⟨e, he, rfl⟩ := List.mem_map.1 ((perm_inOrder hkeys).mem_iff.1 hq)
  exact ⟨rfl, he⟩

variable (h : ∀ e ∈ entries, Portable e)

include h

/-- The object that is written for some entries is read as their records. -/
theorem spells_records :
    Spells readRecords (.object ((recordsOf entries).map fun e => (e.1, e.2.value)))
      (recordsOf entries) := by
  have hrecords : ∀ r ∈ recordsOf entries, Spells readRecord r.2.value r.2 := by
    intro r hr
    rw [recordsOf_eq] at hr
    obtain ⟨q, hq, rfl⟩ := List.mem_map.1 hr
    exact spells_record (h q.2 (mem_inOrder hkeys hq).2)
  constructor
  · refine Json.exactMembers_iff.2 fun m hm => ?_
    obtain ⟨r, hr, rfl⟩ := List.mem_map.1 hm
    exact (hrecords r hr).exact
  · have hmembers : (recordsOf entries).mapM
        (fun r => readMember (Json.pieces r.1, r.2.value.written))
        = some ((recordsOf entries).map id) := by
      refine mapM_eq_pure fun r hr => ?_
      unfold readMember
      rw [Json.string?_pieces, (hrecords r hr).back]
      rfl
    rw [List.map_id] at hmembers
    rw [Value.written, readRecords, Json.writtenMembers_eq, List.map_map, List.mapM_map]
    -- The keys were put in order by the writer.
    have hascending : Keyed.Ascending (recordsOf entries) := Keyed.ascending_ofList _
    show ((recordsOf entries).mapM
      fun r => readMember (Json.pieces r.1, r.2.value.written)).map Keyed.ofList = _
    rw [hmembers, Option.map_some, Keyed.ofList_of_ascending hascending]

/-- The records of portable entries are read as these entries. -/
theorem entriesOf_recordsOf :
    entriesOf (recordsOf entries) = .ok ((inOrder entries).map Prod.snd) := by
  rw [entriesOf, recordsOf_eq, List.mapM_map]
  refine mapM_eq_pure fun q hq => ?_
  obtain ⟨hkey, hmem⟩ := mem_inOrder hkeys hq
  show entryOf q.1 (Record.of q.2.1.freshness q.2.2) = .ok q.2
  rw [hkey]
  exact entryOf_record (h q.2 hmem)

end Bundles

/-- A bundle is decoded to the entries that it was made of, in byte order of their keys. -/
theorem decode_encode_entries {entries : List (Revision × SiteMap)}
    (hkeys : (entries.map (·.1.id.text)).Nodup) (h : ∀ e ∈ entries, Portable e) :
    ∃ decoded, decode (Text.Utf8.encode (encode entries)) = .ok decoded
      ∧ decoded.Perm entries
      ∧ decoded.Pairwise fun a b =>
          Text.Utf8.ofString a.1.id.text < Text.Utf8.ofString b.1.id.text := by
  have hspells := spells_records hkeys h
  refine ⟨(inOrder entries).map Prod.snd, ?_, ?_, ?_⟩
  · -- The text is that of one document, whose records are those that were written.
    have hdocument := Json.ofChars?_render hspells.exact
    unfold decode
    rw [Text.Utf8.decode_encode, encode, hdocument, Option.bind_some, hspells.back]
    exact entriesOf_recordsOf hkeys h
  · -- Putting them in order permutes them.
    have hperm := (perm_inOrder hkeys).map Prod.snd
    rw [List.map_map] at hperm
    have hid : entries.map (Prod.snd ∘ fun e => (e.1.id.text, e)) = entries := List.map_id entries
    rw [hid] at hperm
    exact hperm
  · rw [List.pairwise_map]
    -- They are in order of key, which is the order of bytes.
    have hascending : Keyed.Ascending (inOrder entries) := Keyed.ascending_ofList _
    refine hascending.imp_of_mem fun {a b} ha hb hab => ?_
    rw [Text.Utf8.ofString_lt_ofString, ← (mem_inOrder hkeys ha).1, ← (mem_inOrder hkeys hb).1]
    exact hab

/-- Entries whose keys need escapes, and not in order. -/
def escapedKeys : List (Revision × SiteMap) :=
  [(⟨.resource "resource:///\"a\\\x01é.js", .digest "09afAF"⟩, ⟨[], [], []⟩),
    (⟨.file "/\tb\n.js", .modified (-1) 999999⟩,
      ⟨[1, 2, 4], [⟨1, 0, [2]⟩, ⟨1, 1, [4]⟩],
        [⟨"\"f\":3:0", 3, 5, some 4⟩, ⟨"\"f\":3:0", 3, 3, none⟩]⟩)]

/-- Both entries can be written, although their keys need escapes. -/
theorem portable_escapedKeys : ∀ e ∈ escapedKeys, Portable e := by
  have hcanonical : ∀ e ∈ escapedKeys, e.2.canonical = e.2 := by
    intro e he
    apply SiteMap.canonical_of_pairwise
    all_goals revert e
    all_goals decide
  refine List.forall_mem_cons.2 ⟨?_, List.forall_mem_singleton.2 ?_⟩
  · refine ⟨by decide, ⟨by decide, by decide⟩, ⟨hcanonical _ ?_, fun _ => rfl, by decide⟩, ?_⟩
    · exact List.mem_cons_self
    · constructor <;> decide
  · refine ⟨by decide, ⟨by decide, by decide, by decide⟩,
      ⟨hcanonical _ ?_, fun line => ?_, by decide⟩, ?_⟩
    · exact List.mem_cons_of_mem _ (List.mem_singleton_self _)
    · by_cases hline : line = 1
      · subst hline
        rfl
      · rw [SiteMap.exitsOn_cons_of_ne fun h => hline h.symm,
          SiteMap.exitsOn_cons_of_ne fun h => hline h.symm]
        rfl
    · constructor <;> decide

theorem decode_encode_entries_escapedKeys :
    (∀ e ∈ escapedKeys, Portable e) ∧ ∃ decoded,
      decode (Text.Utf8.encode (encode escapedKeys)) = .ok decoded
      ∧ decoded.Perm escapedKeys
      ∧ decoded.Pairwise fun a b =>
          Text.Utf8.ofString a.1.id.text < Text.Utf8.ofString b.1.id.text := by
  have hkeys : (escapedKeys.map (·.1.id.text)).Nodup := by decide
  exact ⟨portable_escapedKeys, decode_encode_entries hkeys portable_escapedKeys⟩

end Bundle
end Coverage
