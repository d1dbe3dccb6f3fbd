/-
  Coverage.Proofs.Cache.Acceptance

  Which writes a store takes.

  Nothing stands under the number of a new entry, so whether the rows of a map can be added
  depends on the map alone: no two of its exits may agree in line and number, and no two of
  its functions in key (`addMap_isOk_iff`).  A store that takes entries takes every map of
  that kind, and one that refuses them takes nothing but an empty bundle.
-/

import Coverage.Proofs.Cache.View
import Coverage.Proofs.SiteMap.Regular

namespace Coverage

namespace SiteMap

/-- Exits that are numbered in a row differ in line or number. -/
theorem Regular.distinct {m : SiteMap} (h : m.Regular)
    (hkeys : (m.functions.map FunctionSpan.key).Nodup) : m.Distinct where
  exits := by
    refine List.pairwise_map.2 (h.pairwise_exits.imp ?_)
    intro a b hab heq
    obtain ⟨hline, hindex⟩ := Prod.mk.inj heq
    omega
  functions := hkeys

/-- Two exits of a map agree in line and number, or two functions in key. -/
def Repeats (m : SiteMap) : Prop :=
  ¬(m.exits.map BranchExit.key).Nodup ∨ ¬(m.functions.map FunctionSpan.key).Nodup

/-- A map repeats itself exactly if its keys are not distinct. -/
theorem not_distinct_iff {m : SiteMap} : ¬m.Distinct ↔ m.Repeats := by
  constructor
  · intro h
    by_contra hrepeats
    obtain ⟨hexits, hfunctions⟩ := not_or.1 hrepeats
    exact h ⟨not_not.1 hexits, not_not.1 hfunctions⟩
  · rintro (hexits | hfunctions) hdistinct
    · exact hexits hdistinct.exits
    · exact hfunctions hdistinct.functions

end SiteMap

namespace Cache.Tables

variable {n : Nat} {t t' : Tables}

/-! ## Rows under a number -/

/-- Rows of exits are distinct exactly if the exits are, in line and number. -/
theorem nodup_exitRows {es : List BranchExit} :
    (es.map (exitRow n)).Nodup ↔ (es.map BranchExit.key).Nodup := by
  have hrow : ∀ a b : BranchExit, exitRow n a = exitRow n b ↔ a.key = b.key := by
    intro a b
    simp only [exitRow, BranchExit.key, ExitRow.mk.injEq, Prod.mk.injEq, true_and]
  simp only [List.Nodup, List.pairwise_map, ne_eq, hrow]

/-- An exit is added if it is not there. -/
theorem addExit_isOk {e : BranchExit} (h : exitRow n e ∉ t.exitsOf n) :
    ∃ t', addExit n t e = .ok t' := by
  have hnot : (⟨n, e.line, e.index⟩ : ExitRow) ∉ t.exits := by
    intro hmem
    exact h (List.mem_filter.2 ⟨hmem, decide_eq_true rfl⟩)
  refine ⟨_, if_neg ?_⟩
  simpa using hnot

/-- A function is added if none with its key is there. -/
theorem addFunction_isOk {f : FunctionSpan} (h : f.key ∉ (t.functionsOf n).map FunctionSpan.key) :
    ∃ t', addFunction n t f = .ok t' := by
  refine ⟨_, if_neg ?_⟩
  intro hany
  obtain ⟨r, hr, hkey⟩ := List.any_eq_true.1 hany
  obtain ⟨hentry, hkey⟩ := of_decide_eq_true hkey
  -- The row that is in the way stands under the number.
  have hunder : r.function ∈ t.functionsOf n :=
    List.mem_map_of_mem (List.mem_filter.2 ⟨hr, decide_eq_true hentry⟩)
  exact h (List.mem_map.2 ⟨r.function, hunder, hkey⟩)

/-- Exits are accepted where they differ from one another and from those that are there. -/
theorem exits_isOk {es : List BranchExit} (h : (t.exitsOf n ++ es.map (exitRow n)).Nodup) :
    ∃ t', es.foldlM (addExit n) t = .ok t' := by
  induction es generalizing t with
  | nil => exact ⟨t, rfl⟩
  | cons e rest ih =>
    have hnew : exitRow n e ∉ t.exitsOf n := fun hold =>
      (List.nodup_append.1 h).2.2 _ hold _ List.mem_cons_self rfl
    obtain ⟨t₁, h₁⟩ := addExit_isOk hnew
    -- The first exit is there now, so the others must differ from it too.
    have hrows : t₁.exitsOf n = t.exitsOf n ++ [exitRow n e] := by
      rw [(added_exit h₁).exits, if_pos rfl]
      rfl
    have hrest : (t₁.exitsOf n ++ rest.map (exitRow n)).Nodup := by
      rw [hrows, List.append_assoc]
      exact h
    obtain ⟨t', ht'⟩ := ih hrest
    refine ⟨t', ?_⟩
    rw [List.foldlM_cons, h₁, ok_bind]
    exact ht'

/-- Functions are accepted where their keys differ, among themselves and from those that are
    there. -/
theorem functions_isOk {fs : List FunctionSpan}
    (h : ((t.functionsOf n ++ fs).map FunctionSpan.key).Nodup) :
    ∃ t', fs.foldlM (addFunction n) t = .ok t' := by
  induction fs generalizing t with
  | nil => exact ⟨t, rfl⟩
  | cons f rest ih =>
    have hnew : f.key ∉ (t.functionsOf n).map FunctionSpan.key := by
      intro hold
      rw [List.map_append] at h
      exact (List.nodup_append.1 h).2.2 _ hold _ List.mem_cons_self rfl
    obtain ⟨t₁, h₁⟩ := addFunction_isOk hnew
    -- The first function is there now, so the others must differ from it too.
    have hrows : t₁.functionsOf n = t.functionsOf n ++ [f] := by
      rw [(added_function h₁).functions, if_pos rfl]
    have hrest : ((t₁.functionsOf n ++ rest).map FunctionSpan.key).Nodup := by
      rw [hrows, List.append_assoc]
      exact h
    obtain ⟨t', ht'⟩ := ih hrest
    refine ⟨t', ?_⟩
    rw [List.foldlM_cons, h₁, ok_bind]
    exact ht'

/-! ## Maps and entries -/

section

variable {m : SiteMap}

/-- The functions under a number have different keys. -/
theorem Sound.functionsOf_nodup (h : t.Sound) (n : Nat) :
    ((t.functionsOf n).map FunctionSpan.key).Nodup := by
  rw [functionsOf, List.map_map, List.Nodup, List.pairwise_map]
  refine (h.functionKeys.filter _).imp_of_mem ?_
  intro r q hr hq hne heq
  have hrn : r.entry = n := by simpa using (List.mem_filter.1 hr).2
  have hqn : q.entry = n := by simpa using (List.mem_filter.1 hq).2
  exact hne ⟨hrn.trans hqn.symm, heq⟩

/-- The rows of a map can be added where nothing stands if, and only if, none of them is
    there twice. -/
theorem addMap_isOk_iff (h : t.Sound) (hn : t.Uses n) (hexits : t.exitsOf n = [])
    (hfunctions : t.functionsOf n = []) : (∃ t', addMap n t m = .ok t') ↔ m.Distinct := by
  constructor
  · rintro ⟨t', ht'⟩
    have hadded := added_map ht'
    have hsound := h.addMap hn ht'
    -- What was added is all there is under the number, and it is sound.
    have hrows : t'.exitsOf n = m.exits.map (exitRow n) := by
      rw [hadded.exits, hexits, if_pos rfl, List.nil_append]
    have hspans : t'.functionsOf n = m.functions := by
      rw [hadded.functions, hfunctions, if_pos rfl, List.nil_append]
    constructor
    · rw [← nodup_exitRows (n := n), ← hrows]
      exact hsound.exitKeys.filter _
    · rw [← hspans]
      exact hsound.functionsOf_nodup n
  · intro hdistinct
    have hlines := added_lines n t m.lines
    have hnoExits : (m.lines.foldl (addLine n) t).exitsOf n = [] := by
      rw [hlines.exits, if_pos rfl, hexits]
      rfl
    obtain ⟨t₁, h₁⟩ : ∃ t₁, m.exits.foldlM (addExit n) (m.lines.foldl (addLine n) t) = .ok t₁ := by
      apply exits_isOk
      rw [hnoExits, List.nil_append]
      exact nodup_exitRows.2 hdistinct.exits
    have hnoFunctions : t₁.functionsOf n = [] := by
      rw [(added_exits h₁).functions, if_pos rfl, hlines.functions, if_pos rfl, hfunctions]
      rfl
    obtain ⟨t', h₂⟩ : ∃ t', m.functions.foldlM (addFunction n) t₁ = .ok t' := by
      apply functions_isOk
      rw [hnoFunctions, List.nil_append]
      exact hdistinct.functions
    exact ⟨t', bind_eq_ok.2 ⟨t₁, h₁, h₂⟩⟩

/-- A new entry is accepted exactly if its map is distinct. -/
theorem addEntry_isOk_iff (h : t.Sound) {r : Revision} (hid : t.find? r.id.text = none) :
    (∃ t', t.addEntry r m = .ok t') ↔ m.Distinct := by
  -- The number of the entry is a new one.
  obtain ⟨-, hexits, hfunctions, -⟩ := h.vacant (not_uses_nextNumber t)
  exact addMap_isOk_iff (h.withEntry hid) (withEntry_uses t r) hexits hfunctions

end

end Cache.Tables

namespace Cache.Store

variable {s s' : Store}

/-! ## Stores -/

/-- A save does not change whether a store refuses entries. -/
theorem refuses_save {r : Revision} {m : SiteMap} (h : s.save r m = .ok s') :
    s'.refuses = s.refuses := by
  obtain ⟨t, -, rfl⟩ := save_ok h
  rfl

/-- A store takes a map if it takes entries at all, and nothing is in the map twice. -/
theorem save_isOk_iff (h : s.tables.Sound) (r : Revision) (m : SiteMap) :
    (∃ s', s.save r m = .ok s') ↔ s.refuses = false ∧ m.Distinct := by
  have hentry := Tables.addEntry_isOk_iff (m := m)
    (h.removeWhere fun e => decide (e.id = r.id.text)) (find?_remove_self s.tables r.id.text)
  constructor
  · rintro ⟨s', hs'⟩
    obtain ⟨t, ht, -⟩ := save_ok hs'
    refine ⟨?_, hentry.1 ⟨t, ht⟩⟩
    by_contra hrefuses
    rw [save, if_pos (by simpa using hrefuses)] at hs'
    cases hs'
  · -- The old entry is gone by then, so its rows are no obstacle.
    rintro ⟨haccepts, hdistinct⟩
    obtain ⟨t, ht⟩ := hentry.2 hdistinct
    refine ⟨{ s with tables := t }, ?_⟩
    rw [save, if_neg (by simp [haccepts])]
    exact bind_eq_ok.2 ⟨t, ht, rfl⟩

/-- Maps are taken one by one if each of them is. -/
theorem saves_isOk_iff {entries : List (Revision × SiteMap)} (h : s.tables.Sound) :
    (∃ s', entries.foldlM (fun s e => s.save e.1 e.2) s = .ok s')
      ↔ ∀ e ∈ entries, s.refuses = false ∧ e.2.Distinct := by
  induction entries generalizing s with
  | nil =>
    refine ⟨fun _ e he => absurd he List.not_mem_nil, fun _ => ⟨s, rfl⟩⟩
  | cons e rest ih =>
    rw [List.forall_mem_cons, ← save_isOk_iff h e.1 e.2]
    constructor
    · rintro ⟨s', hs'⟩
      rw [List.foldlM_cons] at hs'
      obtain ⟨s₁, h₁, hrest⟩ := bind_eq_ok.1 hs'
      refine ⟨⟨s₁, h₁⟩, ?_⟩
      rw [← refuses_save h₁]
      exact (ih (sound_save h h₁)).1 ⟨s', hrest⟩
    · rintro ⟨⟨s₁, h₁⟩, hrest⟩
      rw [← refuses_save h₁] at hrest
      obtain ⟨s', hs'⟩ := (ih (sound_save h h₁)).2 hrest
      refine ⟨s', ?_⟩
      rw [List.foldlM_cons]
      exact bind_eq_ok.2 ⟨s₁, h₁, hs'⟩

/-- A bundle is taken if it can be decoded and each of its entries is taken. -/
theorem importBundle_isOk_iff (h : s.tables.Sound) (bytes : Bytes) :
    (∃ p, s.importBundle bytes = .ok p)
      ↔ ∃ entries, Bundle.decode bytes = .ok entries
        ∧ ∀ e ∈ entries, s.refuses = false ∧ e.2.Distinct := by
  constructor
  · rintro ⟨p, hp⟩
    obtain ⟨entries, hdecode, hp⟩ := bind_eq_ok.1 hp
    obtain ⟨s', hs', -⟩ := bind_eq_ok.1 hp
    exact ⟨entries, hdecode, (saves_isOk_iff h).1 ⟨s', hs'⟩⟩
  · rintro ⟨entries, hdecode, hentries⟩
    obtain ⟨s', hs'⟩ := (saves_isOk_iff h).2 hentries
    exact ⟨_, bind_eq_ok.2 ⟨entries, hdecode, bind_eq_ok.2 ⟨s', hs', rfl⟩⟩⟩

end Cache.Store
end Coverage
