/-
  Coverage.Proofs.Bundle.Points

  Exits that are put into points are found again in them.

  Where the exits of every line are numbered from zero without a gap, the number of an exit
  is its position in the point of its line (`Numbered.pointsOf`, by induction on the exits),
  and nothing is lost of a regular site map in a record (`map_of`).
-/

import Coverage.Bundle.Record
import Coverage.Proofs.SiteMap.Regular

namespace Coverage.Bundle

open SiteMap (exitsOn exitsOn_cons_self exitsOn_cons_of_ne)

/-! ## Numbers by position -/

/-- The exits of a point, numbered by position from a given number on. -/
def numberedFrom (start : Nat) (p : Point) : List BranchExit :=
  (p.exits.zipIdx start).map fun e => ⟨p.line, e.2, e.1⟩

/-- Exits whose numbers ascend without a gap on every line: from `start` on the first line,
    from zero on the others. -/
structure Numbered (start : Nat) (e : BranchExit) (rest : List BranchExit) : Prop where
  sorted : (e :: rest).Pairwise fun a b => a.line ≤ b.line
  numbers : ∀ line, (exitsOn line (e :: rest)).map BranchExit.index
    = List.range' (if line = e.line then start else 0) (exitsOn line (e :: rest)).length

variable {start : Nat} {e f : BranchExit} {rest : List BranchExit}

theorem Numbered.first (h : Numbered start e rest) :
    e.index = start ∧ (exitsOn e.line rest).map BranchExit.index
      = List.range' (start + 1) (exitsOn e.line rest).length := by
  have hnumbers := h.numbers e.line
  rw [exitsOn_cons_self, if_pos rfl, List.map_cons, List.length_cons, List.range'_succ] at hnumbers
  exact ⟨(List.cons.inj hnumbers).1, (List.cons.inj hnumbers).2⟩

theorem Numbered.sameLine (h : Numbered start e (f :: rest)) (hline : f.line = e.line) :
    Numbered (start + 1) f rest where
  sorted := (List.pairwise_cons.1 h.sorted).2
  numbers := fun line => by
    rw [hline]
    by_cases heq : line = e.line
    · subst heq
      rw [if_pos rfl]
      exact h.first.2
    · have hnumbers := h.numbers line
      rw [exitsOn_cons_of_ne fun hc => heq hc.symm, if_neg heq] at hnumbers
      rw [if_neg heq]
      exact hnumbers

theorem Numbered.nextLine (h : Numbered start e (f :: rest)) (hline : f.line ≠ e.line) :
    Numbered 0 f rest where
  sorted := (List.pairwise_cons.1 h.sorted).2
  numbers := fun line => by
    rw [ite_self]
    by_cases heq : line = e.line
    · -- All exits of the first line stand before those of the next.
      have hle : e.line ≤ f.line := (List.pairwise_cons.1 h.sorted).1 f List.mem_cons_self
      have hnone : exitsOn line (f :: rest) = [] := by
        refine List.filter_eq_nil_iff.2 fun g hg => ?_
        have hfg : f.line ≤ g.line := by
          rcases List.mem_cons.1 hg with rfl | hg
          · exact Nat.le_refl _
          · exact (List.pairwise_cons.1 (List.pairwise_cons.1 h.sorted).2).1 g hg
        have hne : g.line ≠ line := by omega
        simpa using hne
      rw [hnone]
      rfl
    · have hnumbers := h.numbers line
      rw [exitsOn_cons_of_ne fun hc => heq hc.symm, if_neg heq] at hnumbers
      exact hnumbers

/-- Exits that are put into points come out of them with their numbers. -/
theorem Numbered.pointsOf (h : Numbered start e rest) :
    ∃ p ps, pointsOf (e :: rest) = p :: ps ∧ p.line = e.line
      ∧ numberedFrom start p ++ ps.flatMap Point.numbered = e :: rest := by
  induction rest generalizing start e with
  | nil =>
    refine ⟨⟨e.line, [e.candidates]⟩, [], rfl, rfl, ?_⟩
    rw [← h.first.1]
    rfl
  | cons f rest ih =>
    have hcons : Bundle.pointsOf (e :: f :: rest) = consExit e (Bundle.pointsOf (f :: rest)) := rfl
    -- On the same line the exit joins the first point, else it begins one.
    by_cases hline : f.line = e.line
    · obtain ⟨p, ps, hpoints, hp, hback⟩ := ih (h.sameLine hline)
      refine ⟨⟨p.line, e.candidates :: p.exits⟩, ps, ?_, hp.trans hline, ?_⟩
      · rw [hcons, hpoints, consExit, if_pos (hp.trans hline)]
      · have hfirst : numberedFrom start ⟨p.line, e.candidates :: p.exits⟩
            = e :: numberedFrom (start + 1) p := by
          rw [numberedFrom, numberedFrom, List.zipIdx_cons, List.map_cons, hp, hline,
            ← h.first.1]
        rw [hfirst, List.cons_append, hback]
    · obtain ⟨p, ps, hpoints, hp, hback⟩ := ih (h.nextLine hline)
      have hne : p.line ≠ e.line := fun hc => hline (hp.symm.trans hc)
      refine ⟨⟨e.line, [e.candidates]⟩, p :: ps, ?_, rfl, ?_⟩
      · rw [hcons, hpoints, consExit, if_neg hne]
      · have hfirst : numberedFrom start ⟨e.line, [e.candidates]⟩ = [e] := by
          rw [← h.first.1]
          rfl
        rw [hfirst, List.flatMap_cons, show p.numbered = numberedFrom 0 p from rfl, hback]
        rfl

/-- Exits that are numbered from zero on every line come out of their points as they were. -/
theorem flatMap_pointsOf {exits : List BranchExit}
    (hsorted : exits.Pairwise fun a b => a.line ≤ b.line)
    (hnumbers : ∀ line, (exitsOn line exits).map BranchExit.index
      = List.range (exitsOn line exits).length) :
    (pointsOf exits).flatMap Point.numbered = exits := by
  cases exits with
  | nil => rfl
  | cons e rest =>
    have hnumbered : Numbered 0 e rest := by
      refine ⟨hsorted, fun line => ?_⟩
      rw [ite_self, hnumbers line, List.range_eq_range']
    obtain ⟨p, ps, hpoints, -, hback⟩ := hnumbered.pointsOf
    rw [hpoints, List.flatMap_cons]
    exact hback

/-- What an exit brings into some points: its line and its candidates. -/
theorem mem_consExit {ps : List Point} {p : Point} (h : p ∈ consExit e ps) :
    (p.line = e.line ∨ ∃ q ∈ ps, q.line = p.line)
      ∧ ∀ ls ∈ p.exits, ls = e.candidates ∨ ∃ q ∈ ps, ls ∈ q.exits := by
  have hold : p ∈ ps → (p.line = e.line ∨ ∃ q ∈ ps, q.line = p.line)
      ∧ ∀ ls ∈ p.exits, ls = e.candidates ∨ ∃ q ∈ ps, ls ∈ q.exits := fun hp =>
    ⟨.inr ⟨p, hp, rfl⟩, fun _ hls => .inr ⟨p, hp, hls⟩⟩
  have hnew : p = ⟨e.line, [e.candidates]⟩ → (p.line = e.line ∨ ∃ q ∈ ps, q.line = p.line)
      ∧ ∀ ls ∈ p.exits, ls = e.candidates ∨ ∃ q ∈ ps, ls ∈ q.exits := by
    rintro rfl
    exact ⟨.inl rfl, fun _ hls => .inl (List.mem_singleton.1 hls)⟩
  cases ps with
  | nil => exact hnew (List.mem_singleton.1 h)
  | cons q qs =>
    rw [consExit] at h
    split at h
    · rename_i hline
      rcases List.mem_cons.1 h with rfl | hp
      · refine ⟨.inl hline, fun ls hls => ?_⟩
        rcases List.mem_cons.1 hls with rfl | hls
        · exact .inl rfl
        · exact .inr ⟨q, List.mem_cons_self, hls⟩
      · exact hold (List.mem_cons_of_mem q hp)
    · rcases List.mem_cons.1 h with heq | hp
      · exact hnew heq
      · exact hold hp

/-- Points hold nothing but the lines and candidates of exits. -/
theorem mem_pointsOf {exits : List BranchExit} {p : Point} (h : p ∈ pointsOf exits) :
    (∃ e ∈ exits, e.line = p.line) ∧ ∀ ls ∈ p.exits, ∃ e ∈ exits, e.candidates = ls := by
  induction exits generalizing p with
  | nil => exact absurd h List.not_mem_nil
  | cons e rest ih =>
    obtain ⟨hline, hexits⟩ := mem_consExit h
    constructor
    · rcases hline with hline | ⟨q, hq, hline⟩
      · exact ⟨e, List.mem_cons_self, hline.symm⟩
      · obtain ⟨⟨f, hf, hfline⟩, -⟩ := ih hq
        exact ⟨f, List.mem_cons_of_mem e hf, hfline.trans hline⟩
    · intro ls hls
      rcases hexits ls hls with rfl | ⟨q, hq, hls⟩
      · exact ⟨e, List.mem_cons_self, rfl⟩
      · obtain ⟨f, hf, hcandidates⟩ := (ih hq).2 ls hls
        exact ⟨f, List.mem_cons_of_mem e hf, hcandidates⟩

/-! ## Records -/

theorem line_le_of_exitLE {a b : BranchExit} (h : SiteMap.exitLE a b = true) :
    a.line ≤ b.line := by
  rw [SiteMap.exitLE_iff] at h
  omega

theorem map_of {m : SiteMap} (h : m.Regular) (f : Freshness) : (Record.of f m).map = m := by
  have hsorted : m.exits.Pairwise fun a b => a.line ≤ b.line := by
    rw [← h.canonical]
    exact (SiteMap.pairwise_canonical_exits m).imp line_le_of_exitLE
  have hexits := flatMap_pointsOf hsorted h.numbered
  have hfunctions : m.functions.map (fun f => { f with endLine := max f.endLine f.line })
      = m.functions := by
    rw [List.map_congr_left (g := id) fun f hf => ?_, List.map_id]
    rw [Nat.max_eq_left (h.spans f hf)]
    rfl
  rw [Record.map]
  show SiteMap.canonical ⟨m.lines, (pointsOf m.exits).flatMap Point.numbered,
    m.functions.map fun f => { f with endLine := max f.endLine f.line }⟩ = m
  rw [hexits, hfunctions]
  exact h.canonical

end Coverage.Bundle
