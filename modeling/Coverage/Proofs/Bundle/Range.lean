/-
  Coverage.Proofs.Bundle.Range

  Whatever is read from a bundle can be written to one.

  `Yields read P` says that all that a reader reads has a property; there is one lemma for
  every reader, as there is for reading back what was written.  An entry is `Proper` if it
  has a name and its token and lines are in range, and its functions do not end before they
  begin: nothing is asked of the numbers of its exits, or of the order of its parts.  A
  decoded bundle has proper entries only (`proper_decode`), whatever its bytes were.
-/

import Coverage.Proofs.Bundle.RoundTrip
import Coverage.Proofs.Source.Identity

namespace Coverage

open Text.Decimal (bound32 bound63)

/-- An entry that a bundle can carry, but for the numbers of its exits and the order of its
    parts. -/
structure Proper (e : Revision × SiteMap) : Prop where
  named : e.1.id.text ≠ ""
  token : e.1.freshness.Valid
  fits : e.2.Fits
  spans : ∀ f ∈ e.2.functions, f.line ≤ f.endLine

instance : DecidablePred Freshness.Valid
  | .modified _ _ => inferInstanceAs (Decidable (_ ∧ _ ∧ _))
  | .digest _ => inferInstanceAs (Decidable (_ ∧ _))

instance : DecidablePred SiteMap.Fits := fun _ =>
  decidable_of_iff (_ ∧ _ ∧ _) ⟨fun h => ⟨h.1, h.2.1, h.2.2⟩, fun h => ⟨h.1, h.2, h.3⟩⟩

instance : DecidablePred Proper := fun _ =>
  decidable_of_iff (_ ∧ _ ∧ _ ∧ _)
    ⟨fun h => ⟨h.1, h.2.1, h.2.2.1, h.2.2.2⟩, fun h => ⟨h.1, h.2, h.3, h.4⟩⟩

/-- Putting a map in canonical form keeps its numbers in range. -/
theorem SiteMap.Fits.canonical {m : SiteMap} (h : m.Fits) : m.canonical.Fits where
  lines := fun l hl => h.lines l (LineSet.mem_ofList.1 hl)
  exits := fun e he => by
    rw [canonical_exits, List.mem_mergeSort] at he
    obtain ⟨d, hd, rfl⟩ := List.mem_map.1 he
    obtain ⟨hline, hcandidates⟩ := h.exits d hd
    exact ⟨hline, fun l hl => hcandidates l (LineSet.mem_ofList.1 hl)⟩
  functions := fun f hf => h.functions f (List.mem_mergeSort.1 hf)

theorem Proper.canonical {r : Revision} {m : SiteMap} (h : Proper (r, m)) :
    Proper (r, m.canonical) where
  named := h.named
  token := h.token
  fits := h.fits.canonical
  spans := fun f hf => h.spans f (List.mem_mergeSort.1 hf)

namespace Bundle

/-- Whatever is read has a property. -/
def Yields {α : Type} (read : Reader α) (P : α → Prop) : Prop :=
  ∀ d a, read d = some a → P a

/-! ## Single values -/

/-- An integer that is read is in the range that was asked for. -/
theorem yields_integer (inRange : Int → Bool) :
    Yields (Reader.integer inRange) fun i => inRange i = true := by
  intro d i h
  unfold Reader.integer at h
  split at h
  · exact (Option.filter_eq_some_iff.1 h).2
  · cases h

theorem yields_nat32 : Yields Reader.nat32 (· < bound32) := by
  intro d n h
  obtain ⟨i, hi, rfl⟩ := Option.map_eq_some_iff.1 h
  have hrange := yields_integer _ d i hi
  simp only [Bool.and_eq_true, decide_eq_true_eq] at hrange
  omega

theorem yields_int64 : Yields Reader.int64 fun i => -(bound63 : Int) ≤ i ∧ i < bound63 := by
  intro d i h
  have hrange := yields_integer _ d i h
  simpa only [Bool.and_eq_true, decide_eq_true_eq] using hrange

section

variable {α β : Type} {read : Reader α} {P : α → Prop} (h : Yields read P)

include h

/-- The items of a list that is read are what the reader of items yields. -/
theorem yields_list : Yields (Reader.list read) fun as => ∀ a ∈ as, P a := by
  intro d as has a ha
  cases d with
  | array items =>
    obtain ⟨item, -, hitem⟩ := mem_of_mapM_eq_some has ha
    exact h item a hitem
  | _ => cases has

/-- Both members of a pair are what their readers yield. -/
theorem yields_pair {second : Reader β} {Q : β → Prop} (hsecond : Yields second Q) :
    Yields (Reader.pair read second) fun p => P p.1 ∧ Q p.2 := by
  intro d p hp
  unfold Reader.pair at hp
  split at hp
  · rename_i first other
    obtain ⟨a, ha, hp⟩ := Option.bind_eq_some_iff.1 hp
    obtain ⟨b, hb, hp⟩ := Option.bind_eq_some_iff.1 hp
    cases hp
    exact ⟨h first a ha, hsecond other b hb⟩
  · cases hp

/-- What is read of a value that may be null is what its reader yields. -/
theorem yields_optional : Yields (Reader.optional read) fun x => ∀ a ∈ x, P a := by
  intro d x hx a ha
  unfold Reader.optional at hx
  split at hx
  · cases hx
    cases ha
  · obtain ⟨b, hb, rfl⟩ := Option.map_eq_some_iff.1 hx
    cases ha
    exact h _ a hb

/-- A field that must be there is what its reader yields. -/
theorem yields_required {d : Option Json.Document} {a : α}
    (hread : Reader.required read d = some a) : P a := by
  cases d with
  | none => cases hread
  | some d => exact h d a hread

/-- A field that may be missing is what its reader yields, if it is there. -/
theorem yields_lenient {d : Option Json.Document} {x : Option α}
    (hread : Reader.lenient read d = some x) : ∀ a ∈ x, P a := by
  cases d with
  | none =>
    cases hread
    exact fun a ha => absurd ha (Option.not_mem_none a)
  | some d => exact yields_optional h d x hread

end

/-! ## Points, functions and records -/

/-- The lines of a point fit 32 bits. -/
theorem yields_point :
    Yields readPoint fun p => p.line < bound32 ∧ ∀ ls ∈ p.exits, ∀ l ∈ ls, l < bound32 := by
  intro d p h
  obtain ⟨fields, -, h⟩ := Option.bind_eq_some_iff.1 h
  split at h
  · obtain ⟨line, hline, h⟩ := Option.bind_eq_some_iff.1 h
    obtain ⟨exits, hexits, h⟩ := Option.bind_eq_some_iff.1 h
    cases h
    exact ⟨yields_required yields_nat32 hline,
      yields_required (yields_list (yields_list yields_nat32)) hexits⟩
  · cases h

/-- The lines of a function fit 32 bits. -/
theorem yields_function :
    Yields readFunction fun f =>
      f.line < bound32 ∧ f.endLine < bound32 ∧ ∀ l ∈ f.bodyLine, l < bound32 := by
  intro d f h
  obtain ⟨fields, -, h⟩ := Option.bind_eq_some_iff.1 h
  split at h
  · obtain ⟨key, -, h⟩ := Option.bind_eq_some_iff.1 h
    obtain ⟨line, hline, h⟩ := Option.bind_eq_some_iff.1 h
    obtain ⟨endLine, hend, h⟩ := Option.bind_eq_some_iff.1 h
    obtain ⟨bodyLine, hbody, h⟩ := Option.bind_eq_some_iff.1 h
    cases h
    exact ⟨yields_required yields_nat32 hline, yields_required yields_nat32 hend,
      yields_lenient yields_nat32 hbody⟩
  · cases h

/-- All numbers of a record are in range. -/
structure Record.InRange (r : Record) : Prop where
  modified : ∀ t ∈ r.modified, (-(bound63 : Int) ≤ t.1 ∧ t.1 < bound63) ∧ t.2 < bound32
  lines : ∀ l ∈ r.lines, l < bound32
  points : ∀ p ∈ r.points, p.line < bound32 ∧ ∀ ls ∈ p.exits, ∀ l ∈ ls, l < bound32
  functions : ∀ f ∈ r.functions,
    f.line < bound32 ∧ f.endLine < bound32 ∧ ∀ l ∈ f.bodyLine, l < bound32

/-- All numbers of a record are in range. -/
theorem yields_record : Yields readRecord Record.InRange := by
  intro d r h
  obtain ⟨fields, -, h⟩ := Option.bind_eq_some_iff.1 h
  split at h
  · -- Field by field, each with the reader it is read by.
    obtain ⟨modified, hmodified, h⟩ := Option.bind_eq_some_iff.1 h
    obtain ⟨digest, -, h⟩ := Option.bind_eq_some_iff.1 h
    obtain ⟨lines, hlines, h⟩ := Option.bind_eq_some_iff.1 h
    obtain ⟨points, hpoints, h⟩ := Option.bind_eq_some_iff.1 h
    obtain ⟨functions, hfunctions, h⟩ := Option.bind_eq_some_iff.1 h
    cases h
    exact ⟨yields_lenient (yields_pair yields_int64 yields_nat32) hmodified,
      yields_required (yields_list yields_nat32) hlines,
      yields_required (yields_list yields_point) hpoints,
      yields_required (yields_list yields_function) hfunctions⟩
  · cases h

/-- So are those of all records of a bundle. -/
theorem yields_records : Yields readRecords fun rs => ∀ e ∈ rs, e.2.InRange := by
  intro d rs h e he
  cases d with
  | object members =>
    -- Of two members with one key one is dropped, but none is changed.
    obtain ⟨read, hread, rfl⟩ := Option.map_eq_some_iff.1 h
    obtain ⟨m, -, hm⟩ := mem_of_mapM_eq_some hread (Keyed.mem_ofList he)
    obtain ⟨key, -, hm⟩ := Option.bind_eq_some_iff.1 hm
    obtain ⟨r, hr, hm⟩ := Option.bind_eq_some_iff.1 hm
    cases hm
    exact yields_record m.2 r hr
  | _ => cases h

/-! ## Entries -/

section

variable {r : Record} (h : r.InRange)

include h

/-- The token of a record in range is valid. -/
theorem Record.InRange.freshness {id : String} {t : Freshness} (ht : r.freshness id = .ok t) :
    t.Valid := by
  unfold Record.freshness at ht
  split at ht
  · rename_i seconds micros hmodified _
    cases ht
    obtain ⟨⟨hlow, hhigh⟩, hmicros⟩ := h.modified _ hmodified
    exact ⟨hlow, hhigh, hmicros⟩
  · split at ht
    · rename_i hdigits
      cases ht
      exact hdigits
    · cases ht
  · cases ht

/-- The map of a record in range fits. -/
theorem Record.InRange.map : r.map.Fits := by
  apply SiteMap.Fits.canonical
  refine ⟨h.lines, fun e he => ?_, fun f hf => ?_⟩
  · obtain ⟨p, hp, he⟩ := List.mem_flatMap.1 he
    obtain ⟨⟨c, n⟩, hc, rfl⟩ := List.mem_map.1 he
    obtain ⟨hline, hexits⟩ := h.points p hp
    exact ⟨hline, hexits c (List.fst_mem_of_mem_zipIdx hc)⟩
  · -- A last line that was made up is the line of the declaration, which is in range.
    obtain ⟨g, hg, rfl⟩ := List.mem_map.1 hf
    obtain ⟨hline, hend, hbody⟩ := h.functions g hg
    exact ⟨hline, Nat.max_lt.2 ⟨hend, hline⟩, hbody⟩

omit h in
/-- What a function lacks at its end is made up for. -/
theorem spans_map (r : Record) : ∀ f ∈ r.map.functions, f.line ≤ f.endLine := by
  intro f hf
  obtain ⟨g, -, rfl⟩ := List.mem_map.1 (List.mem_mergeSort.1 hf)
  exact Nat.le_max_right _ _

/-- The entry of a record in range is proper. -/
theorem proper_entryOf {key : String} {e : Revision × SiteMap} (he : entryOf key r = .ok e) :
    Proper e := by
  unfold entryOf at he
  split at he
  · cases he
  · rename_i id hid
    obtain ⟨t, ht, he⟩ := bind_eq_ok.1 he
    cases he
    exact ⟨SourceId.text_ne_empty hid, h.freshness ht, h.map, spans_map r⟩

end

/-- Whatever the bytes are that a bundle is decoded from, its entries are proper. -/
theorem proper_decode {bytes : Bytes} {es : List (Revision × SiteMap)}
    (h : decode bytes = .ok es) : ∀ e ∈ es, Proper e := by
  intro e he
  unfold decode at h
  split at h
  · cases h
  · rename_i records hread
    obtain ⟨d, -, hread⟩ := Option.bind_eq_some_iff.1 hread
    obtain ⟨r, hr, hentry⟩ := mem_of_mapM_eq_ok h he
    exact proper_entryOf (yields_records d records hread r hr) hentry

end Bundle
end Coverage
