/-
  Coverage.Proofs.Bundle.Renumber

  What a bundle makes of a site map whose exits are not numbered in a row.

  A point does not hold the numbers of its exits, so they come out of a bundle as positions:
  `SiteMap.renumbered` is the map that they belong to.  It is regular whatever the numbers
  were (`regular_renumbered`), and the points of its exits are the points it was made of,
  since points whose lines ascend are found again in the exits they hold
  (`Ordered.pointsOf_flatMap`, by induction on the points).  So a map and its renumbered form
  have one record (`of_renumbered`), and the record gives the renumbered form.
-/

import Coverage.Proofs.Bundle.Points

namespace Coverage

/-- The map with the exits of every line numbered from zero, in their order. -/
def SiteMap.renumbered (m : SiteMap) : SiteMap :=
  { m with exits := (Bundle.pointsOf m.exits).flatMap Bundle.Point.numbered }

namespace Bundle

open SiteMap (exitsOn exitLE exitLE_iff functionLE)

/-! ## Points in order -/

/-- Points with exits, in strictly ascending order of line. -/
structure Ordered (ps : List Point) : Prop where
  lines : ps.Pairwise fun p q => p.line < q.line
  exits : ∀ p ∈ ps, p.exits ≠ []

section

variable {e : BranchExit} {p : Point} {ps : List Point}

/-- Points after the first one are ordered. -/
theorem Ordered.tail (h : Ordered (p :: ps)) : Ordered ps where
  lines := (List.pairwise_cons.1 h.lines).2
  exits := fun q hq => h.exits q (List.mem_cons_of_mem p hq)

/-- A point with exits may be put before those on later lines. -/
theorem Ordered.cons (h : Ordered ps) (hexits : p.exits ≠ []) (hline : ∀ q ∈ ps, p.line < q.line) :
    Ordered (p :: ps) where
  lines := List.pairwise_cons.2 ⟨hline, h.lines⟩
  exits := List.forall_mem_cons.2 ⟨hexits, h.exits⟩

/-- An exit that does not stand after any point leaves the points in order. -/
theorem Ordered.consExit (h : Ordered ps) (he : ∀ p ∈ ps, e.line ≤ p.line) :
    Ordered (consExit e ps) := by
  cases ps with
  | nil => exact h.cons (List.cons_ne_nil _ _) fun _ hq => absurd hq List.not_mem_nil
  | cons p rest =>
    have hlater : ∀ q ∈ rest, p.line < q.line := (List.pairwise_cons.1 h.lines).1
    rw [Bundle.consExit]
    split
    · exact h.tail.cons (List.cons_ne_nil _ _) hlater
    · -- The exit begins a point of its own, before all the others.
      rename_i hne
      have hp : e.line ≤ p.line := he p List.mem_cons_self
      refine h.cons (List.cons_ne_nil _ _) ?_
      intro q hq
      show e.line < q.line
      rcases List.mem_cons.1 hq with rfl | hq
      · omega
      · have hpq := hlater q hq
        omega

/-- Exits in order of line give ordered points. -/
theorem ordered_pointsOf {exits : List BranchExit}
    (h : exits.Pairwise fun a b => a.line ≤ b.line) : Ordered (pointsOf exits) := by
  induction exits with
  | nil => exact ⟨List.Pairwise.nil, fun _ hp => absurd hp List.not_mem_nil⟩
  | cons e rest ih =>
    obtain ⟨hfirst, hrest⟩ := List.pairwise_cons.1 h
    apply (ih hrest).consExit
    intro p hp
    obtain ⟨⟨f, hf, hline⟩, -⟩ := mem_pointsOf hp
    rw [← hline]
    exact hfirst f hf

/-! ## Points of numbered exits -/

/-- The exits of a point make that point, before points of later lines. -/
theorem foldr_consExit (start line : Nat) (hps : ∀ q ∈ ps, line < q.line)
    (c : List Nat) (rest : List (List Nat)) :
    (numberedFrom start ⟨line, c :: rest⟩).foldr consExit ps = ⟨line, c :: rest⟩ :: ps := by
  induction rest generalizing start c with
  | nil =>
    show consExit ⟨line, start, c⟩ ps = _
    cases ps with
    | nil => rfl
    | cons q qs =>
      have hne : q.line ≠ line := Nat.ne_of_gt (hps q List.mem_cons_self)
      exact if_neg hne
  | cons d rest ih =>
    -- All exits but the first are in their point already, and the first joins them.
    have hfirst : numberedFrom start ⟨line, c :: d :: rest⟩
        = ⟨line, start, c⟩ :: numberedFrom (start + 1) ⟨line, d :: rest⟩ := rfl
    rw [hfirst, List.foldr_cons, ih]
    exact if_pos rfl

/-- Points in order are found again in the exits that they hold. -/
theorem Ordered.pointsOf_flatMap (h : Ordered ps) : pointsOf (ps.flatMap Point.numbered) = ps := by
  induction ps with
  | nil => rfl
  | cons p rest ih =>
    obtain ⟨line, exits⟩ := p
    cases exits with
    | nil => exact absurd rfl (h.exits _ List.mem_cons_self)
    | cons c cs =>
      have hrest : (rest.flatMap Point.numbered).foldr Bundle.consExit [] = rest := ih h.tail
      rw [List.flatMap_cons, pointsOf, List.foldr_append, hrest]
      exact foldr_consExit 0 line (List.pairwise_cons.1 h.lines).1 c cs

/-! ## Numbered exits -/

/-- The exits of a point are on its line, with its lists of candidates. -/
theorem mem_numbered {e : BranchExit} (h : e ∈ p.numbered) :
    e.line = p.line ∧ e.candidates ∈ p.exits := by
  obtain ⟨⟨c, n⟩, hc, rfl⟩ := List.mem_map.1 h
  exact ⟨rfl, List.fst_mem_of_mem_zipIdx hc⟩

theorem index_numbered (p : Point) :
    p.numbered.map BranchExit.index = List.range p.numbered.length := by
  rw [Point.numbered, List.map_map, List.length_map, List.length_zipIdx, List.range_eq_range']
  exact List.zipIdx_map_snd 0 p.exits

/-- The exits of a point are all on its one line. -/
theorem exitsOn_numbered (p : Point) (line : Nat) :
    exitsOn line p.numbered = if p.line = line then p.numbered else [] := by
  have hline : ∀ e ∈ p.numbered, e.line = p.line := fun e he => (mem_numbered he).1
  split
  · rename_i heq
    refine List.filter_eq_self.2 fun e he => ?_
    rw [hline e he]
    exact decide_eq_true heq
  · rename_i hne
    refine List.filter_eq_nil_iff.2 fun e he => ?_
    rw [hline e he, decide_eq_true_eq]
    exact hne

theorem pairwise_numbered (p : Point) : p.numbered.Pairwise fun a b => exitLE a b := by
  have hindex : p.numbered.Pairwise fun a b => a.index < b.index := by
    rw [← List.pairwise_map, index_numbered]
    exact List.pairwise_lt_range
  refine hindex.imp_of_mem ?_
  intro a b ha hb hlt
  have hline : a.line = b.line := (mem_numbered ha).1.trans (mem_numbered hb).1.symm
  exact exitLE_iff.2 (.inr ⟨hline, Nat.le_of_lt hlt⟩)

/-- The exits of points in order stand in order of line and number. -/
theorem Ordered.pairwise_flatMap (h : Ordered ps) :
    (ps.flatMap Point.numbered).Pairwise fun a b => exitLE a b := by
  refine List.pairwise_flatMap.2 ⟨fun p _ => pairwise_numbered p, ?_⟩
  -- Between two points the lines decide.
  refine h.lines.imp ?_
  intro p q hpq a ha b hb
  apply exitLE_iff.2
  rw [(mem_numbered ha).1, (mem_numbered hb).1]
  exact .inl hpq

/-- No two ordered points are on one line. -/
theorem Ordered.nodup_lines (h : Ordered ps) : (ps.map Point.line).Nodup :=
  List.pairwise_map.2 (h.lines.imp Nat.ne_of_lt)

/-- The exits of points on different lines are numbered from zero on every line. -/
theorem index_flatMap (h : (ps.map Point.line).Nodup) (line : Nat) :
    (exitsOn line (ps.flatMap Point.numbered)).map BranchExit.index
      = List.range (exitsOn line (ps.flatMap Point.numbered)).length := by
  induction ps with
  | nil => rfl
  | cons p rest ih =>
    rw [List.map_cons, List.nodup_cons] at h
    have hsplit : exitsOn line ((p :: rest).flatMap Point.numbered)
        = exitsOn line p.numbered ++ exitsOn line (rest.flatMap Point.numbered) := by
      rw [List.flatMap_cons]
      exact List.filter_append _ _
    rw [hsplit, exitsOn_numbered]
    split
    · rename_i heq
      -- No other point is on the line of the first.
      have hnone : exitsOn line (rest.flatMap Point.numbered) = [] := by
        refine List.filter_eq_nil_iff.2 fun e he => ?_
        obtain ⟨q, hq, he⟩ := List.mem_flatMap.1 he
        rw [(mem_numbered he).1, decide_eq_true_eq]
        rintro hline
        exact h.1 (List.mem_map.2 ⟨q, hq, hline.trans heq.symm⟩)
      rw [hnone, List.append_nil]
      exact index_numbered p
    · exact ih h.2

end

/-! ## Renumbered maps -/

/-- What is needed of a map for a bundle to be able to give it back, but for the numbers of
    its exits. -/
structure Orderly (m : SiteMap) : Prop where
  canonical : m.canonical = m
  spans : ∀ f ∈ m.functions, f.line ≤ f.endLine

section

variable {m : SiteMap}

/-- The exits of a renumbered map have the lines and candidates of the exits of the map. -/
theorem exits_renumbered {e : BranchExit} (he : e ∈ m.renumbered.exits) :
    (∃ a ∈ m.exits, a.line = e.line) ∧ ∃ a ∈ m.exits, a.candidates = e.candidates := by
  obtain ⟨p, hp, he⟩ := List.mem_flatMap.1 he
  obtain ⟨hline, hcandidates⟩ := mem_numbered he
  obtain ⟨hlines, hexits⟩ := mem_pointsOf hp
  rw [hline]
  exact ⟨hlines, hexits _ hcandidates⟩

variable (h : Orderly m)

include h

theorem Orderly.ordered : Ordered (pointsOf m.exits) := by
  apply ordered_pointsOf
  rw [← h.canonical]
  exact (SiteMap.pairwise_canonical_exits m).imp line_le_of_exitLE

/-- Whatever numbers the exits of a map have, they are put in a row. -/
theorem regular_renumbered : m.renumbered.Regular where
  canonical := by
    have hlines : m.lines.Pairwise (· < ·) := by
      rw [← h.canonical]
      exact SiteMap.pairwise_canonical_lines m
    have hcandidates : ∀ e ∈ m.exits, e.candidates.Pairwise (· < ·) := by
      rw [← h.canonical]
      exact fun e he => SiteMap.pairwise_candidates_canonical he
    have hfunctions : m.functions.Pairwise fun a b => functionLE a b := by
      rw [← h.canonical]
      exact SiteMap.pairwise_canonical_functions m
    refine SiteMap.canonical_of_pairwise (m := m.renumbered) hlines h.ordered.pairwise_flatMap ?_
      hfunctions
    intro e he
    -- The candidates are those of an exit of the map, which were in order.
    obtain ⟨-, a, ha, hsame⟩ := exits_renumbered he
    rw [← hsame]
    exact hcandidates a ha
  numbered := index_flatMap h.ordered.nodup_lines
  spans := h.spans

/-- Numbering the exits anew leaves their points as they are. -/
theorem pointsOf_renumbered : pointsOf m.renumbered.exits = pointsOf m.exits :=
  h.ordered.pointsOf_flatMap

/-- A record does not tell a map from its renumbered form. -/
theorem of_renumbered (f : Freshness) : Record.of f m.renumbered = Record.of f m := by
  show Record.mk _ _ m.lines (pointsOf m.renumbered.exits) m.functions = _
  rw [pointsOf_renumbered h]
  rfl

/-- What comes out of the record of a map is its renumbered form. -/
theorem map_of_orderly (f : Freshness) : (Record.of f m).map = m.renumbered := by
  rw [← of_renumbered h]
  exact map_of (regular_renumbered h) f

end

/-- Two branches of one line whose numbers leave out one come out as the first two. -/
example : (⟨[3], [⟨3, 1, [4]⟩, ⟨3, 7, []⟩], []⟩ : SiteMap).renumbered
    = ⟨[3], [⟨3, 0, [4]⟩, ⟨3, 1, []⟩], []⟩ := by
  decide

end Bundle
end Coverage
