/-
  Coverage.Proofs.Text.WellFormed

  Bytes that are well-formed throughout.

  A gap-free reading leaves no character open at its end (`decodeFrom_append`), so
  well-formed bytes can be put one after another, and spell out their texts one after another
  (`text?_append`).
-/

import Coverage.Text.Utf8

namespace Coverage.Text.Utf8

/-- Bytes that were read without a gap are read the same before any others, which are then
    read by themselves. -/
theorem decodeFrom_append {state : Option Partial} {front : Bytes} {cs : List Char}
    (h : decodeFrom state front = cs.map some) (back : Bytes) :
    decodeFrom state (front ++ back) = cs.map some ++ decodeFrom none back := by
  induction front generalizing state cs with
  | nil =>
    cases state with
    | none =>
      rw [← h]
      rfl
    | some p =>
      -- A character that is still open would be a gap.
      obtain ⟨c, hc⟩ := List.map_eq_singleton_iff.1 h.symm
      cases hc.2
  | cons b rest ih =>
    rw [decodeFrom_cons] at h
    obtain ⟨first, others, rfl, hfirst, hothers⟩ := List.append_eq_map_iff.1 h
    rw [List.cons_append, decodeFrom_cons, ih hothers.symm, ← hfirst, List.map_append,
      List.append_assoc]

theorem mapM_id_eq_some {found : List (Option Char)} {cs : List Char} :
    found.mapM id = some cs ↔ found = cs.map some := by
  constructor
  · intro h
    induction found generalizing cs with
    | nil =>
      cases h
      rfl
    | cons c rest ih =>
      rw [List.mapM_cons] at h
      obtain ⟨d, hd, h⟩ := Option.bind_eq_some_iff.1 h
      obtain ⟨ds, hds, h⟩ := Option.bind_eq_some_iff.1 h
      cases h
      rw [List.map_cons, ← ih hds]
      exact congrArg (· :: rest) hd
  · rintro rfl
    induction cs with
    | nil => rfl
    | cons c rest ih =>
      rw [List.map_cons, List.mapM_cons, ih]
      rfl

theorem text?_eq_some {bytes : Bytes} {s : String} :
    text? bytes = some s ↔ decode bytes = s.toList.map some := by
  rw [text?, Option.map_eq_some_iff]
  constructor
  · rintro ⟨cs, hcs, rfl⟩
    rw [String.toList_ofList]
    exact mapM_id_eq_some.1 hcs
  · intro h
    exact ⟨s.toList, mapM_id_eq_some.2 h, String.ofList_toList⟩

theorem text?_encode (cs : List Char) : text? (encode cs) = some (String.ofList cs) := by
  have hback := text?_ofString (String.ofList cs)
  rwa [ofString, String.toList_ofList] at hback

/-- Well-formed bytes put one after another spell out both texts. -/
theorem text?_append {front back : Bytes} {s t : String} (hs : text? front = some s)
    (ht : text? back = some t) : text? (front ++ back) = some (s ++ t) := by
  have hback : decodeFrom none back = t.toList.map some := text?_eq_some.1 ht
  rw [text?_eq_some, decode, decodeFrom_append (text?_eq_some.1 hs), hback, String.toList_append,
    List.map_append]

end Coverage.Text.Utf8
