/-
  Coverage.Proofs.Trace.Appended

  A trace that was appended to another one.

  Whoever reads on from one trace into the next holds a section that may still be open, and
  declarations that no count has asked for.  The path with which the next trace begins closes
  the one and forgets the others, and from there on nothing that has ended is looked at
  (`foldl_after`).  So the sections of both are read as they are read from each by itself
  (`read_append`).
-/

import Coverage.Proofs.Text.Lines
import Coverage.Proofs.Text.WellFormed
import Coverage.Proofs.Trace.Records
import Mathlib.Data.List.Induction

namespace Coverage.Trace

open Text (Utf8.text? Utf8.text?_append isBlank trim trim_append)

/-! ## The seam -/

/-- A text whose last line is ended, if there is one. -/
def EndsLine (text : List Char) : Prop :=
  text = [] ∨ text.getLast? = some '\n'

/-- A text that begins with the path of a section, if it is not empty. -/
def OpensSection (text : List Char) : Prop :=
  text = [] ∨ ['S', 'F', ':'] <+: text

variable {front back : List Char}

/-- Texts that end in whole lines do so together. -/
theorem EndsLine.append (hfront : EndsLine front) (hback : EndsLine back) :
    EndsLine (front ++ back) := by
  rcases hback with rfl | hlast
  · rwa [List.append_nil]
  · refine .inr ?_
    rw [List.getLast?_append, hlast]
    rfl

/-- Texts that open a section first do so together. -/
theorem OpensSection.append (hfront : OpensSection front) (hback : OpensSection back) :
    OpensSection (front ++ back) := by
  rcases hfront with rfl | hfirst
  · exact hback
  · exact .inr (hfirst.trans (List.prefix_append front back))

theorem entries_nil : entries [] = [] := by
  decide

/-- Lines are read by themselves, whatever comes after their ends. -/
theorem entries_append (h : EndsLine front) (back : List Char) :
    entries (front ++ back) = entries front ++ entries back := by
  rcases h with rfl | hlast
  · rw [entries_nil]
    rfl
  · obtain ⟨body, rfl⟩ := List.getLast?_eq_some_iff.1 hlast
    have hnil : [([] : List Char)].filterMap (fun line => entry? (trim line)) = [] := by
      decide
    simp only [entries, List.append_assoc, List.singleton_append, List.splitOn_append_cons_self,
      List.filterMap_append, List.splitOn_nil, hnil, List.append_nil]

/-- A line of the path is read as a path, whatever stands behind its tag. -/
theorem entry?_path (value : List Char) :
    ∃ path, entry? (trim ('S' :: 'F' :: ':' :: value)) = some (.path path) := by
  have hfirst : ∀ c ∈ ['S', 'F', ':'].head?, isBlank c = false := by
    rintro _ ⟨⟩
    decide
  have hlast : ∀ c ∈ ['S', 'F', ':'].getLast?, isBlank c = false := by
    rintro _ ⟨⟩
    decide
  obtain ⟨path, htrim⟩ := trim_append hfirst hlast (List.cons_ne_nil _ _) value
  refine ⟨path, ?_⟩
  show entry? (trim (['S', 'F', ':'] ++ value)) = _
  rw [htrim]
  exact readsAs_tagged ['S', 'F'] (by decide) path

/-- The first entry of a text that opens a section is a path. -/
theorem OpensSection.entries (h : OpensSection back) (hne : back ≠ []) :
    ∃ path rest, entries back = .path path :: rest := by
  obtain ⟨value, rfl⟩ := h.resolve_left hne
  -- The first line ends where the text ends, or at the first line end after the tag.
  obtain ⟨line, lines, hlines⟩ : ∃ line lines,
      (['S', 'F', ':'] ++ value).splitOn '\n' = ('S' :: 'F' :: ':' :: line) :: lines := by
    by_cases hmem : '\n' ∈ value
    · obtain ⟨line, rest, rfl, hline⟩ := List.eq_append_cons_of_mem hmem
      have hfirst : '\n' ∉ ['S', 'F', ':'] ++ line := by simp [hline]
      refine ⟨line, rest.splitOn '\n', ?_⟩
      rw [← List.append_assoc, List.splitOn_append_cons_self_of_not_mem hfirst]
      rfl
    · have hfirst : '\n' ∉ ['S', 'F', ':'] ++ value := by simp [hmem]
      exact ⟨value, [], List.splitOn_eq_singleton hfirst⟩
  obtain ⟨path, hpath⟩ := entry?_path line
  refine ⟨path, lines.filterMap fun line => entry? (trim line), ?_⟩
  rw [Trace.entries, hlines]
  exact List.filterMap_cons_some hpath

/-! ## Reading on -/

namespace ReaderState

/-- The state with more sections that had ended before. -/
def after (s : ReaderState) (old : List Section) : ReaderState :=
  { s with ended := s.ended ++ old }

/-- Older sections come after those that are being read. -/
theorem sections_after (s : ReaderState) (old : List Section) :
    (s.after old).sections = s.sections ++ old :=
  (List.append_assoc _ _ _).symm

/-- Sections that have ended are not looked at again. -/
theorem take_after (s : ReaderState) (old : List Section) (x : Entry) :
    (s.after old).take x = (s.take x).after old := by
  cases x with
  | path p =>
    show ReaderState.mk (s.after old).sections _ _ = _
    rw [sections_after]
    rfl
  | sectionEnd =>
    show ReaderState.mk (s.after old).sections _ _ = _
    rw [sections_after]
    rfl
  | _ => rfl

/-- Older sections do not matter to what is read. -/
theorem foldl_after (s : ReaderState) (old : List Section) (xs : List Entry) :
    xs.foldl take (s.after old) = (xs.foldl take s).after old := by
  induction xs generalizing s with
  | nil => rfl
  | cons x rest ih => rw [List.foldl_cons, List.foldl_cons, take_after, ih]

/-- A path is taken as if it came first, but for the sections before it. -/
theorem take_path (s : ReaderState) (path : List Char) :
    s.take (.path path) = (start.take (.path path)).after s.sections :=
  rfl

end ReaderState

/-- The sections of two traces are those of the one and then those of the other. -/
theorem read_append (hfront : EndsLine front) (hback : OpensSection back) :
    read (front ++ back) = read front ++ read back := by
  by_cases hne : back = []
  · subst hne
    rw [List.append_nil, read, read, entries_nil]
    exact (List.append_nil _).symm
  · obtain ⟨path, rest, hentries⟩ := hback.entries hne
    rw [read, entries_append hfront, List.foldl_append, hentries, List.foldl_cons,
      ReaderState.take_path, ReaderState.foldl_after, ← List.foldl_cons, ← hentries,
      ReaderState.sections_after, List.reverse_append]
    rfl

end Coverage.Trace

namespace Coverage

/-! ## Totals -/

theorem Tally.add_assoc (a b c : Tally) : a + b + c = a + (b + c) :=
  congrArg₂ Tally.mk (Nat.add_assoc _ _ _) (Nat.add_assoc _ _ _)

namespace Totals

theorem add_assoc (a b c : Totals) : a + b + c = a + (b + c) := by
  show Totals.mk _ _ _ = Totals.mk _ _ _
  rw [Totals.mk.injEq]
  exact ⟨Tally.add_assoc _ _ _, Tally.add_assoc _ _ _, Tally.add_assoc _ _ _⟩

theorem add_zero (a : Totals) : a + zero = a :=
  rfl

/-- A sum that begins with something is that and the sum. -/
theorem foldl_add (ts : List Totals) (a : Totals) : ts.foldl (· + ·) a = a + sum ts := by
  induction ts using List.reverseRecOn with
  | nil => exact (add_zero a).symm
  | append_singleton rest t ih =>
    have hlast : sum (rest ++ [t]) = sum rest + t := by
      rw [sum, List.foldl_append]
      rfl
    rw [List.foldl_append, List.foldl_cons, List.foldl_nil, ih, add_assoc, hlast]

/-- The sum of two lists is the sum of their sums. -/
theorem sum_append (ts us : List Totals) : sum (ts ++ us) = sum ts + sum us := by
  rw [sum, List.foldl_append, foldl_add]
  rfl

end Totals

/-- Two lists of sections together have the totals of both. -/
theorem Trace.total_append (as bs : List Trace.Section) :
    Trace.total (as ++ bs) = Trace.total as + Trace.total bs := by
  rw [total, List.map_append, Totals.sum_append]
  rfl

end Coverage
