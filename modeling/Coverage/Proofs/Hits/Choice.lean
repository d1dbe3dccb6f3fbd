/-
  Coverage.Proofs.Hits.Choice

  Which function a reported entry is of.

  A search for the first or the last of the best goes through a list once and keeps one that
  nothing in the list is better than (`best_foldl`).  An entry may be of the functions whose body
  begins on its line, or of those around the line if there are none (`Entrant`); a reported name
  narrows these down if one of them has it (`Eligible`).  The slot that is found is that of one
  of the best of the rest: the outermost or the innermost, and of one span the first
  (`chosen_of_slotEntered?`).
-/

import Coverage.Hits.Ledger

namespace Coverage

/-! ## Spans -/

namespace FunctionSpan

/-- A function begins and ends outside another, or on one line with it on one of the two sides. -/
def Encloses (g f : FunctionSpan) : Prop :=
  g.line ≤ f.line ∧ f.endLine ≤ g.endLine ∧ (g.line < f.line ∨ f.endLine < g.endLine)

end FunctionSpan

namespace Ledger

/-! ## The best of some -/

section

variable {α : Type} {better : α → α → Bool} {best : List α → Option α}

/-- An order of ranks: of two at most one is better, and what is not better than a second that is
    not better than a third is not better than the third. -/
structure Ranks (better : α → α → Bool) : Prop where
  asymm : ∀ {a b}, better a b = true → better b a = false
  trans : ∀ {a b c}, better a b = false → better b c = false → better a c = false

/-- One of some things that no other is better than. -/
structure Best (better : α → α → Bool) (as : List α) (a : α) : Prop where
  mem : a ∈ as
  unbeaten : ∀ b ∈ as, better b a = false

/-- A search that finds one of the best, unless there is nothing to find. -/
structure Finds (better : α → α → Bool) (best : List α → Option α) : Prop where
  none : ∀ {as}, best as = none ↔ as = []
  some : ∀ {as a}, best as = some a → Best better as a

theorem Ranks.irrefl (h : Ranks better) (a : α) : better a a = false := by
  cases hself : better a a with
  | false => rfl
  | true => exact hself.symm.trans (h.asymm hself)

/-- Keeping the better of two all along keeps one of the best. -/
theorem best_foldl {pick : α → α → α} (h : Ranks better)
    (hpick : ∀ a b, Best better [a, b] (pick a b)) (as : List α) (a : α) :
    Best better (a :: as) (as.foldl pick a) := by
  induction as generalizing a with
  | nil =>
    refine ⟨List.mem_cons_self, fun b hb => ?_⟩
    rw [List.mem_singleton.1 hb]
    exact h.irrefl a
  | cons b rest ih =>
    -- What the rest keeps is not worse than the pick of the first two, nor that than either.
    obtain ⟨hmem, hunbeaten⟩ := ih (pick a b)
    obtain ⟨hfrom, hkept⟩ := hpick a b
    rw [List.foldl_cons]
    constructor
    · rcases List.mem_cons.1 hmem with heq | hrest
      · rw [heq]
        exact List.mem_append_left rest hfrom
      · exact List.mem_append_right [a, b] hrest
    · intro c hc
      rcases List.mem_append.1 (show c ∈ [a, b] ++ rest from hc) with hfirst | hrest
      · exact h.trans (hkept c hfirst) (hunbeaten _ List.mem_cons_self)
      · exact hunbeaten c (List.mem_cons_of_mem _ hrest)

/-- Of two members one is best as soon as neither is better. -/
theorem best_pair {a b c : α} (hc : c = a ∨ c = b) (ha : better a c = false)
    (hb : better b c = false) : Best better [a, b] c := by
  refine ⟨?_, fun d hd => ?_⟩
  · rcases hc with rfl | rfl
    · exact List.mem_cons_self
    · exact List.mem_cons_of_mem a List.mem_cons_self
  · rcases List.mem_cons.1 hd with rfl | hd
    · exact ha
    · rw [List.mem_singleton.1 hd]
      exact hb

/-- The search that keeps what it has on a tie finds a best member. -/
theorem finds_firstBest? (h : Ranks better) : Finds better (firstBest? better) where
  none := fun {as} => by cases as <;> simp [firstBest?]
  some := fun {as a} hfound => by
    cases as with
    | nil => cases hfound
    | cons first rest =>
      cases hfound
      refine best_foldl h (fun a b => ?_) rest first
      split
      · rename_i hbetter
        exact best_pair (.inr rfl) (h.asymm hbetter) (h.irrefl b)
      · rename_i hbetter
        exact best_pair (.inl rfl) (h.irrefl a) (eq_false_of_ne_true hbetter)

/-- So does the search that goes on to the later one on a tie. -/
theorem finds_lastBest? (h : Ranks better) : Finds better (lastBest? better) where
  none := fun {as} => by cases as <;> simp [lastBest?]
  some := fun {as a} hfound => by
    cases as with
    | nil => cases hfound
    | cons first rest =>
      cases hfound
      refine best_foldl h (fun a b => ?_) rest first
      split
      · rename_i hbetter
        exact best_pair (.inl rfl) (h.irrefl a) (h.asymm hbetter)
      · rename_i hbetter
        exact best_pair (.inr rfl) (eq_false_of_ne_true hbetter) (h.irrefl b)

end

/-! ## The two orders of spans -/

/-- To be outside is to begin earlier, or to begin at one line and end later, or to be the earlier
    of two with the same span. -/
theorem outside_iff {f g : FunctionSpan} : outside f g = true
    ↔ f.line < g.line ∨ (f.line = g.line
      ∧ (g.endLine < f.endLine ∨ (f.endLine = g.endLine ∧ f.index < g.index))) := by
  simp only [outside, Bool.or_eq_true, Bool.and_eq_true, decide_eq_true_eq, beq_iff_eq]

/-- To be inside is to begin later, or to begin at one line and end earlier, or to be the earlier
    of two with the same span. -/
theorem inside_iff {f g : FunctionSpan} : inside f g = true
    ↔ g.line < f.line ∨ (f.line = g.line
      ∧ (f.endLine < g.endLine ∨ (f.endLine = g.endLine ∧ f.index < g.index))) := by
  simp only [inside, Bool.or_eq_true, Bool.and_eq_true, decide_eq_true_eq, beq_iff_eq]

/-- A function that encloses another one is outside it. -/
theorem outside_of_encloses {f g : FunctionSpan} (h : g.Encloses f) : outside g f = true := by
  obtain ⟨hline, hend, hapart⟩ := h
  rw [outside_iff]
  omega

/-- A function that is enclosed is inside the other one. -/
theorem inside_of_encloses {f g : FunctionSpan} (h : f.Encloses g) : inside g f = true := by
  obtain ⟨hline, hend, hapart⟩ := h
  rw [inside_iff]
  omega

theorem outside_of_index_lt {f g : FunctionSpan} (hline : g.line = f.line)
    (hend : g.endLine = f.endLine) (h : g.index < f.index) : outside g f = true :=
  outside_iff.2 (.inr ⟨hline, .inr ⟨hend, h⟩⟩)

theorem inside_of_index_lt {f g : FunctionSpan} (hline : g.line = f.line)
    (hend : g.endLine = f.endLine) (h : g.index < f.index) : inside g f = true :=
  inside_iff.2 (.inr ⟨hline, .inr ⟨hend, h⟩⟩)

theorem ranks_outside : Ranks fun f g : FunctionSpan × Nat => outside f.1 g.1 where
  asymm := fun {f g} h => by
    rw [outside_iff] at h
    rw [← Bool.not_eq_true, outside_iff]
    omega
  trans := fun {f g k} hfg hgk => by
    rw [← Bool.not_eq_true, outside_iff] at *
    omega

theorem ranks_inside : Ranks fun f g : FunctionSpan × Nat => inside f.1 g.1 where
  asymm := fun {f g} h => by
    rw [inside_iff] at h
    rw [← Bool.not_eq_true, inside_iff]
    omega
  trans := fun {f g k} hfg hgk => by
    rw [← Bool.not_eq_true, inside_iff] at *
    omega

/-! ## Names -/

/-- Those of some functions that have a name, or all if no name is given or none has it. -/
def preferred (name : Option String) (fs : List (FunctionSpan × Nat)) :
    List (FunctionSpan × Nat) :=
  if named name fs = [] then fs else named name fs

/-- The functions of a name, if a name is given. -/
theorem mem_named {name : Option String} {fs : List (FunctionSpan × Nat)}
    {f : FunctionSpan × Nat} :
    f ∈ named name fs ↔ f ∈ fs ∧ name.isSome = true ∧ f.1.name? = name := by
  rw [named, List.mem_filter, Bool.and_eq_true, decide_eq_true_eq]

/-- The functions that are preferred: those of the name that is given, if there are any. -/
theorem mem_preferred {name : Option String} {fs : List (FunctionSpan × Nat)}
    {f : FunctionSpan × Nat} : f ∈ preferred name fs
      ↔ f ∈ fs ∧ (name.isSome = true → (∃ g ∈ fs, g.1.name? = name) → f.1.name? = name) := by
  unfold preferred
  split
  · rename_i hnone
    refine (and_iff_left fun hgiven hexists => ?_).symm
    -- No function has the name, so it narrows nothing down.
    obtain ⟨g, hg, hname⟩ := hexists
    have hmem := mem_named.2 ⟨hg, hgiven, hname⟩
    rw [hnone] at hmem
    exact absurd hmem List.not_mem_nil
  · rename_i hsome
    obtain ⟨g, hg⟩ := List.exists_mem_of_ne_nil _ hsome
    obtain ⟨hmem, hgiven, hname⟩ := mem_named.1 hg
    rw [mem_named]
    constructor
    · rintro ⟨hf, -, hfname⟩
      exact ⟨hf, fun _ _ => hfname⟩
    · rintro ⟨hf, hnamed⟩
      exact ⟨hf, hgiven, hnamed hgiven ⟨g, hmem, hname⟩⟩

/-- Looking first among the functions of the name and then among all finds what is best among
    those that are preferred. -/
theorem Finds.or_eq {better : FunctionSpan × Nat → FunctionSpan × Nat → Bool}
    {best : List (FunctionSpan × Nat) → Option (FunctionSpan × Nat)} (h : Finds better best)
    (name : Option String) (fs : List (FunctionSpan × Nat)) :
    (best (named name fs)).or (best fs) = best (preferred name fs) := by
  unfold preferred
  split
  · rename_i hnone
    rw [h.none.2 hnone, Option.none_or]
  · rename_i hsome
    obtain ⟨f, hf⟩ := Option.ne_none_iff_exists'.1 fun hnone => hsome (h.none.1 hnone)
    rw [hf, Option.some_or]

/-! ## Who may be entered -/

/-- A function that an entry at a line may be of: its body begins there, or it is around the line
    and no body begins there. -/
inductive Entrant (m : SiteMap) (line slot : Nat) (f : FunctionSpan) : Prop
  | begins (hf : m.functions[slot]? = some f) (hbody : f.bodyLine = some line)
  | around (hnone : ∀ g ∈ m.functions, g.bodyLine ≠ some line) (hf : m.functions[slot]? = some f)
      (hline : f.contains line = true)

theorem Entrant.getElem? {m : SiteMap} {line slot : Nat} {f : FunctionSpan}
    (h : Entrant m line slot f) : m.functions[slot]? = some f := by
  cases h with
  | begins hf _ => exact hf
  | around _ hf _ => exact hf

/-- A function that an entry at a line under a name may be of: it has the name, if that is given
    and any function has it which may be entered there. -/
structure Eligible (m : SiteMap) (name : Option String) (line slot : Nat) (f : FunctionSpan) :
    Prop where
  entrant : Entrant m line slot f
  named : name.isSome = true → (∃ k g, Entrant m line k g ∧ g.name? = name) → f.name? = name

/-- The function that an entry is of.  No other begins before it on the way in, if bodies begin
    on the line; else none is further inside. -/
structure Chosen (m : SiteMap) (name : Option String) (line slot : Nat) (f : FunctionSpan) :
    Prop where
  eligible : Eligible m name line slot f
  outermost : (∃ g ∈ m.functions, g.bodyLine = some line) →
    ∀ k g, Eligible m name line k g → ¬g.Encloses f
  innermost : (∀ g ∈ m.functions, g.bodyLine ≠ some line) →
    ∀ k g, Eligible m name line k g → ¬f.Encloses g
  first : ∀ k g, Eligible m name line k g → g.line = f.line → g.endLine = f.endLine →
    f.index ≤ g.index

section

variable {l : Ledger} {line slot : Nat} {f : FunctionSpan} {name : Option String}

theorem mem_slots : (f, slot) ∈ l.slots ↔ l.map.functions[slot]? = some f :=
  List.mem_zipIdx_iff_getElem?

/-- The functions whose body begins on a line, with their slots. -/
def beginning (l : Ledger) (line : Nat) : List (FunctionSpan × Nat) :=
  l.slots.filter fun f => f.1.bodyLine = some line

/-- The functions around a line, with their slots. -/
def around (l : Ledger) (line : Nat) : List (FunctionSpan × Nat) :=
  l.slots.filter fun f => f.1.contains line

/-- The functions whose body begins on a line. -/
theorem mem_beginning : (f, slot) ∈ l.beginning line
    ↔ l.map.functions[slot]? = some f ∧ f.bodyLine = some line := by
  rw [beginning, List.mem_filter, mem_slots, decide_eq_true_eq]

/-- The functions whose span contains a line. -/
theorem mem_around : (f, slot) ∈ l.around line
    ↔ l.map.functions[slot]? = some f ∧ f.contains line = true := by
  rw [around, List.mem_filter, mem_slots]

theorem beginning_eq_nil_iff :
    l.beginning line = [] ↔ ∀ g ∈ l.map.functions, g.bodyLine ≠ some line := by
  rw [List.eq_nil_iff_forall_not_mem]
  constructor
  · intro h g hg hbody
    obtain ⟨k, hk⟩ := List.mem_iff_getElem?.1 hg
    exact h (g, k) (mem_beginning.2 ⟨hk, hbody⟩)
  · rintro h ⟨g, k⟩ hmem
    obtain ⟨hk, hbody⟩ := mem_beginning.1 hmem
    exact h g (List.mem_of_getElem? hk) hbody

/-- The functions that an entry at a line may be of, with their slots. -/
def entrants (l : Ledger) (line : Nat) : List (FunctionSpan × Nat) :=
  if l.beginning line = [] then l.around line else l.beginning line

/-- The functions that an entry is looked for among are those that the line may enter. -/
theorem mem_entrants : (f, slot) ∈ l.entrants line ↔ Entrant l.map line slot f := by
  unfold entrants
  split
  · -- Where no body begins on the line, only the spans around it count.
    rename_i hnone
    rw [beginning_eq_nil_iff] at hnone
    rw [mem_around]
    constructor
    · rintro ⟨hf, hline⟩
      exact .around hnone hf hline
    · intro h
      cases h with
      | begins hf hbody => exact absurd hbody (hnone f (List.mem_of_getElem? hf))
      | around _ hf hline => exact ⟨hf, hline⟩
  · -- Where one does, only the bodies that begin there count.
    rename_i hsome
    rw [beginning_eq_nil_iff] at hsome
    rw [mem_beginning]
    constructor
    · rintro ⟨hf, hbody⟩
      exact .begins hf hbody
    · intro h
      cases h with
      | begins hf hbody => exact ⟨hf, hbody⟩
      | around hnone _ _ => exact absurd hnone hsome

/-- Of these the ones that are preferred are the ones that are eligible. -/
theorem mem_eligible :
    (f, slot) ∈ preferred name (l.entrants line) ↔ Eligible l.map name line slot f := by
  rw [mem_preferred, mem_entrants]
  have hexists : (∃ g ∈ l.entrants line, g.1.name? = name)
      ↔ ∃ k g, Entrant l.map line k g ∧ g.name? = name := by
    constructor
    · rintro ⟨⟨g, k⟩, hg, hname⟩
      exact ⟨k, g, mem_entrants.1 hg, hname⟩
    · rintro ⟨k, g, hg, hname⟩
      exact ⟨(g, k), mem_entrants.2 hg, hname⟩
  rw [hexists]
  exact ⟨fun ⟨hentrant, hnamed⟩ => ⟨hentrant, hnamed⟩, fun h => ⟨h.entrant, h.named⟩⟩

/-! ## The slot that is found -/

/-- The search looks for the outermost of the functions that begin, and for the innermost of those
    around if there are none. -/
theorem slotEntered?_eq (l : Ledger) (name : Option String) (line : Nat) :
    l.slotEntered? name line = (if l.beginning line = [] then
        lastBest? (fun f g : FunctionSpan × Nat => inside f.1 g.1)
          (preferred name (l.entrants line))
      else firstBest? (fun f g : FunctionSpan × Nat => outside f.1 g.1)
        (preferred name (l.entrants line))).map Prod.snd := by
  -- Each two searches, among those with the name and among all, are one among the preferred.
  have hfirst := finds_firstBest? ranks_outside
  have hsearch : l.slotEntered? name line
      = ((firstBest? (fun f g : FunctionSpan × Nat => outside f.1 g.1)
          (preferred name (l.beginning line))).or
        (lastBest? (fun f g : FunctionSpan × Nat => inside f.1 g.1)
          (preferred name (l.around line)))).map Prod.snd := by
    rw [← hfirst.or_eq, ← (finds_lastBest? ranks_inside).or_eq, Option.or_assoc]
    rfl
  rw [hsearch]
  unfold entrants
  split
  · rename_i hnone
    have hempty : preferred name (l.beginning line) = [] := by
      rw [hnone]
      exact if_pos rfl
    rw [hfirst.none.2 hempty, Option.none_or]
  · rename_i hsome
    have hfound : preferred name (l.beginning line) ≠ [] := by
      unfold preferred
      split
      · exact hsome
      · rename_i hnamed
        exact hnamed
    obtain ⟨f, hf⟩ := Option.ne_none_iff_exists'.1 fun hnone => hfound (hfirst.none.1 hnone)
    rw [hf, Option.some_or]

/-- If no slot is found, there is no function to enter. -/
theorem not_entrant_of_slotEntered? (h : l.slotEntered? name line = none) (k : Nat)
    (g : FunctionSpan) : ¬Entrant l.map line k g := by
  intro hg
  rw [slotEntered?_eq, Option.map_eq_none_iff] at h
  -- Either search finds nothing only among nothing.
  have hempty : preferred name (l.entrants line) = [] := by
    split at h
    · exact (finds_lastBest? ranks_inside).none.1 h
    · exact (finds_firstBest? ranks_outside).none.1 h
  -- What is preferred is all there is, or else it is not empty.
  have hnone : l.entrants line = [] := by
    unfold preferred at hempty
    split at hempty
    · exact hempty
    · rename_i hnamed
      exact absurd hempty hnamed
  have hmem := mem_entrants.2 hg
  rw [hnone] at hmem
  exact List.not_mem_nil hmem

/-- Nothing that is eligible is better than what is best. -/
theorem Best.not_better {better : FunctionSpan → FunctionSpan → Bool}
    (h : Best (fun f g : FunctionSpan × Nat => better f.1 g.1) (preferred name (l.entrants line))
      (f, slot)) {k : Nat} {g : FunctionSpan} (hg : Eligible l.map name line k g) :
    ¬better g f = true := by
  rw [Bool.not_eq_true]
  exact h.unbeaten (g, k) (mem_eligible.2 hg)

/-- The slot that is found is that of the function to charge. -/
theorem chosen_of_slotEntered? (h : l.slotEntered? name line = some slot) :
    ∃ f, Chosen l.map name line slot f := by
  rw [slotEntered?_eq, Option.map_eq_some_iff] at h
  obtain ⟨⟨f, k⟩, hfound, rfl⟩ := h
  refine ⟨f, ?_⟩
  split at hfound
  · -- No body begins on the line: the innermost span was looked for.
    rename_i hnone
    rw [beginning_eq_nil_iff] at hnone
    have hbest := (finds_lastBest? ranks_inside).some hfound
    refine ⟨mem_eligible.1 hbest.mem, fun ⟨g, hg, hbody⟩ => absurd hbody (hnone g hg), ?_, ?_⟩
    · intro _ k g hg hencloses
      exact hbest.not_better hg (inside_of_encloses hencloses)
    · intro k g hg hline hend
      exact Nat.le_of_not_lt fun h => hbest.not_better hg (inside_of_index_lt hline hend h)
  · -- A body begins there: the outermost of these functions was looked for.
    rename_i hsome
    rw [beginning_eq_nil_iff] at hsome
    have hbest := (finds_firstBest? ranks_outside).some hfound
    refine ⟨mem_eligible.1 hbest.mem, ?_, fun hnone => absurd hnone hsome, ?_⟩
    · intro _ k g hg hencloses
      exact hbest.not_better hg (outside_of_encloses hencloses)
    · intro k g hg hline hend
      exact Nat.le_of_not_lt fun h => hbest.not_better hg (outside_of_index_lt hline hend h)

/-- An entry finds the number of a function that the map has. -/
theorem slotEntered?_lt (h : l.slotEntered? name line = some slot) :
    slot < l.map.functions.length := by
  obtain ⟨f, hf⟩ := chosen_of_slotEntered? h
  exact (List.getElem?_eq_some_iff.1 hf.eligible.entrant.getElem?).1

end

end Ledger
end Coverage
