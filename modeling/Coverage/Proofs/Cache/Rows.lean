/-
  Coverage.Proofs.Cache.Rows

  Which rows the tables hold, and what adding and removing entries does to them.

  `Sound` is what the keys of the tables promise: no number, identity or key occurs twice,
  and every row refers to a row that is there.  What stands under a number is read through
  four views (`linesOf`, `exitsOf`, `candidatesOf`, `functionsOf`); `Added` says in terms of
  them what adding a map under a number does, and is composed from its single rows.  The two
  results are

    * `map_addEntry`: the new entry reads back as the canonical map, and no other entry
      changes;
    * `map_removeWhere`: what is left after a removal reads as before.
-/

import Coverage.Cache.Tables
import Coverage.Proofs.Chain
import Coverage.Proofs.SiteMap.Canonical
import Mathlib.Data.List.Nodup

namespace Coverage.Cache.Tables

/-- Whether an entry has a number. -/
def Uses (t : Tables) (n : Nat) : Prop :=
  ∃ e ∈ t.entries, e.number = n

/-- What the keys of the tables promise. -/
structure Sound (t : Tables) : Prop where
  numbers : (t.entries.map EntryRow.number).Nodup
  ids : (t.entries.map EntryRow.id).Nodup
  lineKeys : t.lines.Nodup
  exitKeys : t.exits.Nodup
  candidateKeys : t.candidates.Nodup
  functionKeys : t.functions.Pairwise fun r q =>
    ¬(r.entry = q.entry ∧ r.function.key = q.function.key)
  lineEntries : ∀ r ∈ t.lines, t.Uses r.entry
  exitEntries : ∀ r ∈ t.exits, t.Uses r.entry
  candidateExits : ∀ r ∈ t.candidates, r.exit ∈ t.exits
  functionEntries : ∀ r ∈ t.functions, t.Uses r.entry

/-- Tables without rows keep all promises. -/
theorem sound_empty : empty.Sound := by
  constructor <;> simp [empty]

/-! ## What stands under a number -/

/-- The lines under a number. -/
def linesOf (t : Tables) (n : Nat) : List Nat :=
  (t.lines.filter (·.entry = n)).map LineRow.line

/-- The exits under a number. -/
def exitsOf (t : Tables) (n : Nat) : List ExitRow :=
  t.exits.filter (·.entry = n)

/-- The candidates of an exit. -/
def candidatesOf (t : Tables) (row : ExitRow) : List Nat :=
  (t.candidates.filter (·.exit = row)).map CandidateRow.line

/-- The functions under a number. -/
def functionsOf (t : Tables) (n : Nat) : List FunctionSpan :=
  (t.functions.filter (·.entry = n)).map FunctionRow.function

/-- The exit of a row. -/
def exitAt (t : Tables) (row : ExitRow) : BranchExit :=
  ⟨row.line, row.index, t.candidatesOf row⟩

/-- The map under a number is made of the rows under that number, put into canonical form. -/
theorem map_eq (t : Tables) (n : Nat) :
    t.map n = SiteMap.canonical ⟨t.linesOf n, (t.exitsOf n).map t.exitAt, t.functionsOf n⟩ :=
  rfl

theorem mem_linesOf {t : Tables} {n l : Nat} : l ∈ t.linesOf n ↔ ⟨n, l⟩ ∈ t.lines := by
  simp only [linesOf, List.mem_map, List.mem_filter, decide_eq_true_eq]
  constructor
  · rintro ⟨⟨_, _⟩, ⟨h, rfl⟩, rfl⟩
    exact h
  · intro h
    exact ⟨_, ⟨h, rfl⟩, rfl⟩

theorem mem_candidatesOf {t : Tables} {row : ExitRow} {l : Nat} :
    l ∈ t.candidatesOf row ↔ ⟨row, l⟩ ∈ t.candidates := by
  simp only [candidatesOf, List.mem_map, List.mem_filter, decide_eq_true_eq]
  constructor
  · rintro ⟨⟨_, _⟩, ⟨h, rfl⟩, rfl⟩
    exact h
  · intro h
    exact ⟨_, ⟨h, rfl⟩, rfl⟩

/-- Nothing stands under a number that no entry has. -/
theorem Sound.vacant {t : Tables} (h : t.Sound) {n : Nat} (hn : ¬t.Uses n) :
    t.linesOf n = [] ∧ t.exitsOf n = [] ∧ t.functionsOf n = []
      ∧ ∀ row : ExitRow, row.entry = n → t.candidatesOf row = [] := by
  -- A row under the number would refer to an entry that has it.
  have hexits : t.exitsOf n = [] := by
    simp only [exitsOf, List.filter_eq_nil_iff, decide_eq_true_eq]
    rintro r hr rfl
    exact hn (h.exitEntries r hr)
  refine ⟨?_, hexits, ?_, ?_⟩
  · simp only [linesOf, List.map_eq_nil_iff, List.filter_eq_nil_iff, decide_eq_true_eq]
    rintro r hr rfl
    exact hn (h.lineEntries r hr)
  · simp only [functionsOf, List.map_eq_nil_iff, List.filter_eq_nil_iff, decide_eq_true_eq]
    rintro r hr rfl
    exact hn (h.functionEntries r hr)
  · rintro row rfl
    simp only [candidatesOf, List.map_eq_nil_iff, List.filter_eq_nil_iff, decide_eq_true_eq]
    rintro r hr rfl
    exact hn (h.exitEntries _ (h.candidateExits r hr))

/-! ## Adding single rows -/

theorem nodup_snoc {α : Type} {rows : List α} {row : α} (h : rows.Nodup) (hnew : row ∉ rows) :
    (rows ++ [row]).Nodup := by
  rw [← List.concat_eq_append]
  exact h.concat hnew

section Add

variable {t t' : Tables} {n : Nat}

/-- A line is added once, under a number that is in use. -/
theorem Sound.addLine (h : t.Sound) (hn : t.Uses n) (line : Nat) : (addLine n t line).Sound := by
  unfold Tables.addLine
  split
  · exact h
  · rename_i hnew
    refine { h with lineKeys := ?_, lineEntries := ?_ }
    · have hnot : (⟨n, line⟩ : LineRow) ∉ t.lines := by simpa using hnew
      exact nodup_snoc h.lineKeys hnot
    · intro r hr
      rcases List.mem_append.1 hr with hr | hr
      · exact h.lineEntries r hr
      · rw [List.mem_singleton.1 hr]
        exact hn

/-- A candidate is added once, to an exit that is there. -/
theorem Sound.addCandidate (h : t.Sound) {exit : ExitRow} (hexit : exit ∈ t.exits) (line : Nat) :
    (addCandidate exit t line).Sound := by
  unfold Tables.addCandidate
  split
  · exact h
  · rename_i hnew
    refine { h with candidateKeys := ?_, candidateExits := ?_ }
    · have hnot : (⟨exit, line⟩ : CandidateRow) ∉ t.candidates := by simpa using hnew
      exact nodup_snoc h.candidateKeys hnot
    · intro r hr
      rcases List.mem_append.1 hr with hr | hr
      · exact h.candidateExits r hr
      · rw [List.mem_singleton.1 hr]
        exact hexit

theorem addCandidate_exits (exit : ExitRow) (t : Tables) (line : Nat) :
    (addCandidate exit t line).exits = t.exits := by
  unfold addCandidate
  split <;> rfl

/-- Candidates may be added one after another. -/
theorem Sound.addCandidates (h : t.Sound) {exit : ExitRow} (hexit : exit ∈ t.exits)
    (ls : List Nat) : (ls.foldl (Tables.addCandidate exit) t).Sound := by
  induction ls generalizing t with
  | nil => exact h
  | cons l rest ih =>
    refine ih (h.addCandidate hexit l) ?_
    rw [addCandidate_exits]
    exact hexit

/-- An exit is added where there was none with its key, and its candidates after it. -/
theorem addExit_ok {e : BranchExit} (h : addExit n t e = .ok t') :
    (⟨n, e.line, e.index⟩ : ExitRow) ∉ t.exits
      ∧ t' = e.candidates.foldl (addCandidate ⟨n, e.line, e.index⟩)
          { t with exits := t.exits ++ [⟨n, e.line, e.index⟩] } := by
  unfold addExit at h
  simp only at h
  split at h
  · cases h
  · rename_i hnew
    exact ⟨by simpa using hnew, (Except.ok.inj h).symm⟩

/-- A function is added where there was none with its key. -/
theorem addFunction_ok {f : FunctionSpan} (h : addFunction n t f = .ok t') :
    (∀ r ∈ t.functions, ¬(r.entry = n ∧ r.function.key = f.key))
      ∧ t' = { t with functions := t.functions ++ [⟨n, f⟩] } := by
  unfold addFunction at h
  split at h
  · cases h
  · rename_i hnew
    exact ⟨by simpa using hnew, (Except.ok.inj h).symm⟩

/-- A new exit keeps the promises, and its candidates have an exit to refer to. -/
theorem Sound.addExit (h : t.Sound) (hn : t.Uses n) {e : BranchExit}
    (hok : addExit n t e = .ok t') : t'.Sound := by
  obtain ⟨hnew, rfl⟩ := addExit_ok hok
  refine Sound.addCandidates ?_ (by simp) e.candidates
  refine { h with exitKeys := ?_, exitEntries := ?_, candidateExits := ?_ }
  · exact nodup_snoc h.exitKeys hnew
  · intro r hr
    rcases List.mem_append.1 hr with hr | hr
    · exact h.exitEntries r hr
    · rw [List.mem_singleton.1 hr]
      exact hn
  · intro r hr
    exact List.mem_append_left _ (h.candidateExits r hr)

/-- A new function keeps the promises. -/
theorem Sound.addFunction (h : t.Sound) (hn : t.Uses n) {f : FunctionSpan}
    (hok : addFunction n t f = .ok t') : t'.Sound := by
  obtain ⟨hnew, rfl⟩ := addFunction_ok hok
  refine { h with functionKeys := ?_, functionEntries := ?_ }
  · refine List.pairwise_append.2 ⟨h.functionKeys, by simp, ?_⟩
    intro r hr q hq
    rw [List.mem_singleton.1 hq]
    exact hnew r hr
  · intro r hr
    rcases List.mem_append.1 hr with hr | hr
    · exact h.functionEntries r hr
    · rw [List.mem_singleton.1 hr]
      exact hn

end Add

/-! ## Adding a map -/

/-- The row of an exit under a number. -/
def exitRow (n : Nat) (e : BranchExit) : ExitRow :=
  ⟨n, e.line, e.index⟩

/-- The tables have grown by a map under a number. -/
structure Added (n : Nat) (m : SiteMap) (t t' : Tables) : Prop where
  entries : t'.entries = t.entries
  lines : ∀ k l, l ∈ t'.linesOf k ↔ l ∈ t.linesOf k ∨ (k = n ∧ l ∈ m.lines)
  exits : ∀ k, t'.exitsOf k = t.exitsOf k ++ if k = n then m.exits.map (exitRow n) else []
  candidates : ∀ row l, l ∈ t'.candidatesOf row ↔
    l ∈ t.candidatesOf row ∨ ∃ e ∈ m.exits, row = exitRow n e ∧ l ∈ e.candidates
  functions : ∀ k, t'.functionsOf k = t.functionsOf k ++ if k = n then m.functions else []

namespace Added

variable {n : Nat} {m₁ m₂ : SiteMap} {t t₁ t₂ : Tables}

theorem refl (n : Nat) (t : Tables) : Added n ⟨[], [], []⟩ t t := by
  constructor <;> simp

/-- One map after another is both at once. -/
theorem trans (h₁ : Added n m₁ t t₁) (h₂ : Added n m₂ t₁ t₂) :
    Added n ⟨m₁.lines ++ m₂.lines, m₁.exits ++ m₂.exits, m₁.functions ++ m₂.functions⟩ t t₂ where
  entries := h₂.entries.trans h₁.entries
  lines k l := by
    rw [h₂.lines, h₁.lines, List.mem_append, and_or_left, or_assoc]
  exits k := by
    rw [h₂.exits, h₁.exits, List.append_assoc]
    split <;> simp
  candidates row l := by
    rw [h₂.candidates, h₁.candidates, or_assoc]
    simp only [List.mem_append, or_and_right, exists_or]
  functions k := by
    rw [h₂.functions, h₁.functions, List.append_assoc]
    split <;> simp

/-- No other number sees what was added. -/
theorem map_of_ne {m : SiteMap} (h : Added n m t t₁) {k : Nat} (hk : k ≠ n) :
    t₁.map k = t.map k := by
  rw [map_eq, map_eq]
  refine SiteMap.canonical_congr ?_ ?_ ?_
  · intro l
    simp [h.lines, hk]
  · have hexits : t₁.exitsOf k = t.exitsOf k := by simp [h.exits, hk]
    simp only [hexits, List.map_map]
    refine List.map_congr_left fun row hrow => ?_
    have hentry : row.entry = k := by simpa using (List.mem_filter.1 hrow).2
    have hset : LineSet.ofList (t₁.candidatesOf row) = LineSet.ofList (t.candidatesOf row) := by
      -- The exits that were added stand under the other number.
      refine LineSet.ofList_congr fun l => ?_
      rw [h.candidates, or_iff_left]
      rintro ⟨e, -, rfl, -⟩
      exact hk hentry.symm
    simp only [Function.comp_apply, exitAt, BranchExit.ordered, hset]
  · simp [h.functions, hk]

/-- What was added where nothing stood before reads back in canonical form. -/
theorem map_self {m : SiteMap} (h : Added n m t t₁) (ht : t.Sound) (hn : ¬t.Uses n)
    (hkeys : t₁.exits.Nodup) : t₁.map n = m.canonical := by
  obtain ⟨hlines, hexits, hfunctions, hcandidates⟩ := ht.vacant hn
  have hrows : t₁.exitsOf n = m.exits.map (exitRow n) := by simp [h.exits, hexits]
  have hdistinct : (m.exits.map (exitRow n)).Nodup := by
    rw [← hrows]
    exact hkeys.filter _
  rw [map_eq]
  refine SiteMap.canonical_congr ?_ ?_ ?_
  · intro l
    simp [h.lines, hlines]
  · simp only [hrows, List.map_map]
    refine List.map_congr_left fun e he => ?_
    have hset : LineSet.ofList (t₁.candidatesOf (exitRow n e)) = LineSet.ofList e.candidates := by
      refine LineSet.ofList_congr fun l => ?_
      rw [h.candidates, hcandidates _ rfl]
      -- Two exits of the map with one row are the same exit.
      constructor
      · rintro (hl | ⟨d, hd, hrow, hl⟩)
        · cases hl
        · rwa [List.inj_on_of_nodup_map hdistinct he hd hrow]
      · intro hl
        exact .inr ⟨e, he, rfl, hl⟩
    simp only [Function.comp_apply, exitAt, BranchExit.ordered, hset]
    rfl
  · simp [h.functions, hfunctions]

end Added

section AddMap

variable {n : Nat} {t t' : Tables}

/-- A line that is there already is not added again, and is there all the same. -/
theorem added_line (n : Nat) (t : Tables) (line : Nat) :
    Added n ⟨[line], [], []⟩ t (addLine n t line) := by
  unfold addLine
  split
  · rename_i hold
    -- The line is there already: no row is added, and no line is new.
    have hmem : (⟨n, line⟩ : LineRow) ∈ t.lines := by simpa using hold
    refine { Added.refl n t with lines := ?_ }
    intro k l
    rw [List.mem_singleton, iff_self_or]
    rintro ⟨rfl, rfl⟩
    exact mem_linesOf.2 hmem
  · refine { entries := rfl, lines := ?_, exits := ?_, candidates := ?_, functions := ?_ }
    · intro k l
      simp [mem_linesOf]
    · intro k
      simp [exitsOf]
    · intro row l
      simp [candidatesOf]
    · intro k
      simp [functionsOf]

/-- An exit has one candidate more, and other exits have those they had. -/
theorem mem_candidatesOf_addCandidate {exit row : ExitRow} {line l : Nat} :
    l ∈ (addCandidate exit t line).candidatesOf row ↔
      l ∈ t.candidatesOf row ∨ (row = exit ∧ l = line) := by
  unfold addCandidate
  split
  · rename_i hold
    have hmem : (⟨exit, line⟩ : CandidateRow) ∈ t.candidates := by simpa using hold
    rw [iff_self_or]
    rintro ⟨rfl, rfl⟩
    exact mem_candidatesOf.2 hmem
  · simp [mem_candidatesOf]

/-- An exit has the candidates that were added to it, beside those it had. -/
theorem mem_candidatesOf_addCandidates {exit row : ExitRow} {ls : List Nat} {l : Nat} :
    l ∈ (ls.foldl (addCandidate exit) t).candidatesOf row ↔
      l ∈ t.candidatesOf row ∨ (row = exit ∧ l ∈ ls) := by
  induction ls generalizing t with
  | nil => simp
  | cons k rest ih =>
    rw [List.foldl_cons, ih, mem_candidatesOf_addCandidate, or_assoc, ← and_or_left,
      List.mem_cons]

/-- Candidates leave the other tables alone. -/
theorem foldl_addCandidate (exit : ExitRow) (t : Tables) (ls : List Nat) :
    ls.foldl (addCandidate exit) t
      = { t with candidates := (ls.foldl (addCandidate exit) t).candidates } := by
  induction ls generalizing t with
  | nil => rfl
  | cons l rest ih =>
    rw [List.foldl_cons, ih]
    unfold addCandidate
    split <;> rfl

/-- One exit with its candidates is added. -/
theorem added_exit {e : BranchExit} (h : addExit n t e = .ok t') :
    Added n ⟨[], [e], []⟩ t t' := by
  obtain ⟨-, rfl⟩ := addExit_ok h
  rw [foldl_addCandidate]
  refine { entries := rfl, lines := ?_, exits := ?_, candidates := ?_, functions := ?_ }
  · intro k l
    simp [linesOf]
  · intro k
    by_cases hk : k = n
    · subst hk
      simp [exitsOf, exitRow]
    · have hne : ¬n = k := fun h => hk h.symm
      simp [exitsOf, hk, hne]
  · -- Exits have no candidates of their own yet, so what is added is all there is.
    intro row l
    let placed : Tables := { t with exits := t.exits ++ [exitRow n e] }
    have hcs : l ∈ (e.candidates.foldl (addCandidate (exitRow n e)) placed).candidatesOf row
        ↔ l ∈ placed.candidatesOf row ∨ (row = exitRow n e ∧ l ∈ e.candidates) :=
      mem_candidatesOf_addCandidates
    simpa [placed, candidatesOf, exitRow] using hcs
  · intro k
    simp [functionsOf]

/-- One function is added. -/
theorem added_function {f : FunctionSpan} (h : addFunction n t f = .ok t') :
    Added n ⟨[], [], [f]⟩ t t' := by
  obtain ⟨-, rfl⟩ := addFunction_ok h
  refine { entries := rfl, lines := ?_, exits := ?_, candidates := ?_, functions := ?_ }
  · intro k l
    simp [linesOf]
  · intro k
    simp [exitsOf]
  · intro row l
    simp [candidatesOf]
  · intro k
    by_cases hk : k = n
    · subst hk
      simp [functionsOf]
    · have hne : ¬n = k := fun h => hk h.symm
      simp [functionsOf, hk, hne]

/-- Lines are added one by one, which is adding a map with these lines. -/
theorem added_lines (n : Nat) (t : Tables) (ls : List Nat) :
    Added n ⟨ls, [], []⟩ t (ls.foldl (addLine n) t) := by
  induction ls generalizing t with
  | nil => exact Added.refl n t
  | cons l rest ih => exact (added_line n t l).trans (ih (addLine n t l))

/-- Exits are added one by one, which is adding a map with these exits. -/
theorem added_exits {es : List BranchExit} (h : es.foldlM (addExit n) t = .ok t') :
    Added n ⟨[], es, []⟩ t t' := by
  induction es generalizing t with
  | nil =>
    rw [List.foldlM_nil] at h
    exact Except.ok.inj h ▸ Added.refl n t
  | cons e rest ih =>
    rw [List.foldlM_cons] at h
    obtain ⟨t₁, h₁, h₂⟩ := bind_eq_ok.1 h
    exact (added_exit h₁).trans (ih h₂)

/-- Functions are added one by one, which is adding a map with these functions. -/
theorem added_functions {fs : List FunctionSpan} (h : fs.foldlM (addFunction n) t = .ok t') :
    Added n ⟨[], [], fs⟩ t t' := by
  induction fs generalizing t with
  | nil =>
    rw [List.foldlM_nil] at h
    exact Except.ok.inj h ▸ Added.refl n t
  | cons f rest ih =>
    rw [List.foldlM_cons] at h
    obtain ⟨t₁, h₁, h₂⟩ := bind_eq_ok.1 h
    exact (added_function h₁).trans (ih h₂)

/-- The parts of a map are added in turn, and together they are the map. -/
theorem added_map {m : SiteMap} (h : addMap n t m = .ok t') : Added n m t t' := by
  unfold addMap at h
  obtain ⟨t₁, h₁, h₂⟩ := bind_eq_ok.1 h
  have hall := ((added_lines n t m.lines).trans (added_exits h₁)).trans (added_functions h₂)
  simpa using hall

theorem Uses.of_entries {k : Nat} (h : t.Uses k) (he : t'.entries = t.entries) : t'.Uses k := by
  unfold Uses
  rw [he]
  exact h

/-- Lines may be added one after another. -/
theorem Sound.addLines (h : t.Sound) (hn : t.Uses n) (ls : List Nat) :
    (ls.foldl (Tables.addLine n) t).Sound := by
  induction ls generalizing t with
  | nil => exact h
  | cons l rest ih => exact ih (h.addLine hn l) (hn.of_entries (added_line n t l).entries)

/-- A map that is accepted keeps the promises of the tables. -/
theorem Sound.addMap (h : t.Sound) (hn : t.Uses n) {m : SiteMap} (hok : addMap n t m = .ok t') :
    t'.Sound := by
  unfold Tables.addMap at hok
  obtain ⟨t₁, h₁, h₂⟩ := bind_eq_ok.1 hok
  -- Each row keeps what the keys promise, and the entry stays in its place.
  have hlines : (m.lines.foldl (Tables.addLine n) t).Sound
      ∧ (m.lines.foldl (Tables.addLine n) t).Uses n :=
    ⟨h.addLines hn m.lines, hn.of_entries (added_lines n t m.lines).entries⟩
  have hexits : t₁.Sound ∧ t₁.Uses n :=
    foldlM_keeps (P := fun t => t.Sound ∧ t.Uses n)
      (fun s e _ s' hs hok => ⟨hs.1.addExit hs.2 hok, hs.2.of_entries (added_exit hok).entries⟩)
      hlines h₁
  exact (foldlM_keeps (P := fun t => t.Sound ∧ t.Uses n)
    (fun s f _ s' hs hok =>
      ⟨hs.1.addFunction hs.2 hok, hs.2.of_entries (added_function hok).entries⟩)
    hexits h₂).1

end AddMap

/-! ## Adding an entry -/

/-- The next number is not in use. -/
theorem not_uses_nextNumber (t : Tables) : ¬t.Uses t.nextNumber := by
  rintro ⟨e, he, hn⟩
  have hle := (le_foldl_max (t.entries.map EntryRow.number) 0).2 e.number
    (List.mem_map_of_mem he)
  unfold nextNumber at hn
  omega

section AddEntry

variable {t t' : Tables} {r : Revision} {m : SiteMap}

/-- The tables with the row of a new entry and nothing under it yet. -/
def withEntry (t : Tables) (r : Revision) : Tables :=
  { t with entries := t.entries ++ [rowOf t.nextNumber r] }

/-- An entry is added as a row of its own, and then the map under its number. -/
theorem addEntry_eq (t : Tables) (r : Revision) (m : SiteMap) :
    t.addEntry r m = addMap t.nextNumber (t.withEntry r) m := rfl

theorem withEntry_uses (t : Tables) (r : Revision) : (t.withEntry r).Uses t.nextNumber :=
  ⟨rowOf t.nextNumber r, by simp [withEntry], rfl⟩

/-- A row with a new number and a new identity keeps the promises. -/
theorem Sound.withEntry (h : t.Sound) (hid : t.find? r.id.text = none) :
    (t.withEntry r).Sound := by
  have hnumber : ∀ e ∈ t.entries, e.number ≠ t.nextNumber := fun e he hn =>
    not_uses_nextNumber t ⟨e, he, hn⟩
  have hkeep : ∀ k, t.Uses k → (t.withEntry r).Uses k := by
    rintro k ⟨e, he, hk⟩
    exact ⟨e, List.mem_append_left _ he, hk⟩
  -- The rows that refer to entries still find theirs; what is new are the two keys of the new row.
  refine { h with
    numbers := ?_
    ids := ?_
    lineEntries := fun q hq => hkeep _ (h.lineEntries q hq)
    exitEntries := fun q hq => hkeep _ (h.exitEntries q hq)
    functionEntries := fun q hq => hkeep _ (h.functionEntries q hq) }
  · rw [Tables.withEntry, List.map_append, List.map_singleton]
    refine nodup_snoc h.numbers fun hmem => ?_
    obtain ⟨e, he, hn⟩ := List.mem_map.1 hmem
    exact hnumber e he hn
  · rw [Tables.withEntry, List.map_append, List.map_singleton]
    refine nodup_snoc h.ids fun hmem => ?_
    obtain ⟨e, he, heq⟩ := List.mem_map.1 hmem
    have hne := List.find?_eq_none.1 hid e he
    exact hne (decide_eq_true heq)

/-- What is there after an entry has been added. -/
theorem addEntry_ok (h : t.Sound) (hid : t.find? r.id.text = none)
    (hok : t.addEntry r m = .ok t') :
    t'.Sound ∧ t'.entries = t.entries ++ [rowOf t.nextNumber r]
      ∧ t'.map t.nextNumber = m.canonical
      ∧ ∀ k, k ≠ t.nextNumber → t'.map k = t.map k := by
  rw [addEntry_eq] at hok
  have hadded := added_map hok
  have hsound := (h.withEntry hid).addMap (withEntry_uses t r) hok
  -- The row itself has nothing under it, so the map is added to the old tables.
  have hold : Added t.nextNumber m t { t' with entries := t.entries } :=
    { entries := rfl, lines := hadded.lines, exits := hadded.exits,
      candidates := hadded.candidates, functions := hadded.functions }
  exact ⟨hsound, hadded.entries, hold.map_self h (not_uses_nextNumber t) hsound.exitKeys,
    fun k hk => hold.map_of_ne hk⟩

end AddEntry

/-! ## Removing entries -/

section Remove

variable {t : Tables} {doomed : EntryRow → Bool}

/-- The numbers of the entries that go. -/
def numbersOf (t : Tables) (doomed : EntryRow → Bool) : List Nat :=
  (t.entries.filter doomed).map EntryRow.number

theorem removeWhere_entries (t : Tables) (doomed : EntryRow → Bool) :
    (t.removeWhere doomed).entries = t.entries.filter fun e => !doomed e := rfl

/-- An entry that stays shares its number with none that goes. -/
theorem Sound.not_mem_numbersOf (h : t.Sound) {e : EntryRow} (he : e ∈ t.entries)
    (hkeep : doomed e = false) : e.number ∉ t.numbersOf doomed := by
  intro hn
  obtain ⟨d, hd, hnumber⟩ := List.mem_map.1 hn
  obtain ⟨hd, hdoomed⟩ := List.mem_filter.1 hd
  rw [List.inj_on_of_nodup_map h.numbers hd he hnumber, hkeep] at hdoomed
  cases hdoomed

/-- A number stays in use unless the entry that has it goes. -/
theorem uses_removeWhere {k : Nat} (hk : t.Uses k) (hgone : k ∉ t.numbersOf doomed) :
    (t.removeWhere doomed).Uses k := by
  obtain ⟨e, he, rfl⟩ := hk
  refine ⟨e, ?_, rfl⟩
  rw [removeWhere_entries, List.mem_filter]
  refine ⟨he, ?_⟩
  by_contra hdoomed
  exact hgone (List.mem_map_of_mem (List.mem_filter.2 ⟨he, by simpa using hdoomed⟩))

/-- With an entry all rows go that refer to it, so no row is left without its entry. -/
theorem Sound.removeWhere (h : t.Sound) (doomed : EntryRow → Bool) :
    (t.removeWhere doomed).Sound where
  numbers := h.numbers.sublist (List.filter_sublist.map _)
  ids := h.ids.sublist (List.filter_sublist.map _)
  lineKeys := h.lineKeys.filter _
  exitKeys := h.exitKeys.filter _
  candidateKeys := h.candidateKeys.filter _
  functionKeys := h.functionKeys.filter _
  lineEntries r hr := by
    obtain ⟨hr, hgone⟩ := List.mem_filter.1 hr
    exact uses_removeWhere (h.lineEntries r hr) (by simpa [numbersOf] using hgone)
  exitEntries r hr := by
    obtain ⟨hr, hgone⟩ := List.mem_filter.1 hr
    exact uses_removeWhere (h.exitEntries r hr) (by simpa [numbersOf] using hgone)
  candidateExits r hr := by
    obtain ⟨hr, hgone⟩ := List.mem_filter.1 hr
    exact List.mem_filter.2 ⟨h.candidateExits r hr, hgone⟩
  functionEntries r hr := by
    obtain ⟨hr, hgone⟩ := List.mem_filter.1 hr
    exact uses_removeWhere (h.functionEntries r hr) (by simpa [numbersOf] using hgone)

/-- Entries that stay read as before. -/
theorem map_removeWhere {k : Nat} (hk : k ∉ t.numbersOf doomed) :
    (t.removeWhere doomed).map k = t.map k := by
  -- All four kinds of rows are chosen by the number they stand under.
  have hkeep {α : Type} (rows : List α) (number : α → Nat) :
      (rows.filter fun r => !(t.numbersOf doomed).contains (number r)).filter (number · = k)
        = rows.filter (number · = k) := by
    rw [List.filter_filter]
    refine List.filter_congr fun r _ => ?_
    by_cases hr : number r = k
    · simp [hr, hk]
    · simp [hr]
  have hexits : (t.removeWhere doomed).exitsOf k = t.exitsOf k := hkeep t.exits ExitRow.entry
  rw [map_eq, map_eq]
  congr 2
  · exact congrArg _ (hkeep t.lines LineRow.entry)
  · rw [hexits]
    refine List.map_congr_left fun row hrow => ?_
    have hentry : row.entry = k := by simpa using (List.mem_filter.1 hrow).2
    have hrows : (t.removeWhere doomed).candidates.filter (·.exit = row)
        = t.candidates.filter (·.exit = row) := by
      show (List.filter (fun r => !(t.numbersOf doomed).contains r.exit.entry)
        t.candidates).filter (·.exit = row) = _
      rw [List.filter_filter]
      refine List.filter_congr fun r _ => ?_
      by_cases hr : r.exit = row
      · simp [hr, hentry, hk]
      · simp [hr]
    rw [exitAt, exitAt, candidatesOf, hrows, candidatesOf]
  · exact congrArg _ (hkeep t.functions FunctionRow.entry)

end Remove

end Coverage.Cache.Tables
