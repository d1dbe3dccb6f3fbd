/-
  Coverage.Proofs.Text.Lines

  Text that was put together from parts is cut into these parts again: a line at a
  separator that its first part does not hold, and a text at the ends of its lines.  Blanks
  on either side of a line are no part of it.
-/

import Coverage.Text.Blank
import Coverage.Text.Cut

namespace Coverage.Text

variable {sep : Char} {front back cs : List Char}

/-! ## Parts of a line -/

/-- A text is cut at a separator if there is none before it. -/
theorem cutFirst?_append (h : sep ∉ front) (back : List Char) :
    cutFirst? sep (front ++ sep :: back) = some (front, back) := by
  induction front with
  | nil => exact if_pos rfl
  | cons c rest ih =>
    have hc : c ≠ sep := fun heq => h (heq ▸ List.mem_cons_self)
    have hrest : sep ∉ rest := fun hmem => h (List.mem_cons_of_mem c hmem)
    rw [List.cons_append, cutFirst?, if_neg hc, ih hrest]
    rfl

/-- A text without a separator is not cut. -/
theorem cutFirst?_eq_none (h : sep ∉ cs) : cutFirst? sep cs = none := by
  induction cs with
  | nil => rfl
  | cons c rest ih =>
    have hc : c ≠ sep := fun heq => h (heq ▸ List.mem_cons_self)
    have hrest : sep ∉ rest := fun hmem => h (List.mem_cons_of_mem c hmem)
    rw [cutFirst?, if_neg hc, ih hrest]
    rfl

/-- One cut after another, from the front. -/
theorem cutUpTo_append (h : sep ∉ front) (n : Nat) (back : List Char) :
    cutUpTo sep (n + 1) (front ++ sep :: back) = front :: cutUpTo sep n back := by
  rw [cutUpTo, cutFirst?_append h]

theorem cutUpTo_of_not_mem (h : sep ∉ cs) (n : Nat) : cutUpTo sep n cs = [cs] := by
  cases n with
  | zero => rfl
  | succ n => rw [cutUpTo, cutFirst?_eq_none h]

/-! ## Blanks around a line -/

/-- A text that does not begin with a blank stays as it is. -/
theorem trimLeft_eq_self (h : ∀ c ∈ cs.head?, isBlank c = false) : trimLeft cs = cs := by
  cases cs with
  | nil => rfl
  | cons c rest =>
    rw [trimLeft, List.dropWhile_cons_of_neg]
    rw [h c rfl]
    exact Bool.false_ne_true

/-- A line without blanks at its ends is left as it is. -/
theorem trim_eq_self (hfirst : ∀ c ∈ cs.head?, isBlank c = false)
    (hlast : ∀ c ∈ cs.getLast?, isBlank c = false) : trim cs = cs := by
  have hreverse : ∀ c ∈ cs.reverse.head?, isBlank c = false := by
    intro c hc
    rw [List.head?_reverse] at hc
    exact hlast c hc
  rw [trim, trimLeft_eq_self hfirst, trimLeft_eq_self hreverse, List.reverse_reverse]

/-- Blanks are cut off behind a text that begins and ends with other characters. -/
theorem trim_append (hfirst : ∀ c ∈ front.head?, isBlank c = false)
    (hlast : ∀ c ∈ front.getLast?, isBlank c = false) (hne : front ≠ []) (back : List Char) :
    ∃ rest, trim (front ++ back) = front ++ rest := by
  have hleft : trimLeft (front ++ back) = front ++ back := by
    obtain ⟨d, rest, rfl⟩ := List.exists_cons_of_ne_nil hne
    exact trimLeft_eq_self hfirst
  have hfront : front.reverse.dropWhile isBlank = front.reverse := by
    refine trimLeft_eq_self fun c hc => hlast c ?_
    rwa [List.head?_reverse] at hc
  -- What is dropped from the end is dropped before the text is reached.
  have hright : trimLeft (back.reverse ++ front.reverse)
      = trimLeft back.reverse ++ front.reverse := by
    rw [trimLeft, trimLeft, List.dropWhile_append, hfront]
    split
    · rename_i hempty
      rw [List.isEmpty_iff.1 hempty, List.nil_append]
    · rfl
  refine ⟨(trimLeft back.reverse).reverse, ?_⟩
  rw [trim, hleft, List.reverse_append, hright, List.reverse_append, List.reverse_reverse]

/-- Blanks at the beginning are trimmed away. -/
theorem trimLeft_blank_append (h : ∀ c ∈ front, isBlank c = true) (cs : List Char) :
    trimLeft (front ++ cs) = trimLeft cs :=
  List.dropWhile_append_of_pos h

/-- Blanks before a line are cut off. -/
theorem trim_blank_append (h : ∀ c ∈ front, isBlank c = true) (cs : List Char) :
    trim (front ++ cs) = trim cs := by
  rw [trim, trimLeft_blank_append h, trim]

/-- Blanks behind a line are cut off. -/
theorem trim_append_blank (front : List Char) (h : ∀ c ∈ back, isBlank c = true) :
    trim (front ++ back) = trim front := by
  have hleft : trimLeft (front ++ back)
      = if (trimLeft front).isEmpty then trimLeft back else trimLeft front ++ back :=
    List.dropWhile_append
  rw [trim, trim, hleft]
  split
  · -- Then there is nothing but blanks.
    rename_i hempty
    have hback := trimLeft_blank_append h []
    rw [List.append_nil] at hback
    rw [List.isEmpty_iff.1 hempty, hback]
    rfl
  · rw [List.reverse_append, trimLeft_blank_append fun c hc => h c (List.mem_reverse.1 hc)]

theorem isBlank_of_isDigit {c : Char} (h : c.isDigit = true) : isBlank c = false := by
  have hrange : 48 ≤ c.toNat ∧ c.toNat ≤ 57 := by
    simp only [Char.isDigit, Bool.and_eq_true, decide_eq_true_eq, ge_iff_le,
      UInt32.le_iff_toNat_le] at h
    exact h
  rw [isBlank, List.any_eq_false]
  rintro ⟨first, last⟩ hmem hblank
  have hinside : first ≤ c.toNat ∧ c.toNat ≤ last := by
    simpa using hblank
  simp only [blankRanges, List.mem_cons, Prod.mk.injEq, List.not_mem_nil, or_false] at hmem
  omega

/-! ## Lines of a text -/

/-- The parts of a list hold no separator. -/
theorem not_mem_of_mem_splitOn {α : Type} [BEq α] [LawfulBEq α] {sep : α} {xs part : List α}
    (h : part ∈ xs.splitOn sep) : sep ∉ part := by
  induction xs generalizing part with
  | nil =>
    rw [List.splitOn_nil, List.mem_singleton] at h
    exact h ▸ List.not_mem_nil
  | cons x rest ih =>
    rw [List.splitOn_cons_eq_if_modifyHead] at h
    split at h
    · cases h with
      | head => exact List.not_mem_nil
      | tail _ h => exact ih h
    · rename_i hx
      obtain ⟨first, others, hparts⟩ := List.exists_cons_of_ne_nil (List.splitOn_ne_nil sep rest)
      rw [hparts, List.modifyHead_cons] at h
      cases h with
      | head =>
        have hfirst : sep ∉ first := ih (hparts ▸ List.mem_cons_self)
        rintro (_ | ⟨_, hmem⟩)
        · exact hx BEq.rfl
        · exact hfirst hmem
      | tail _ h => exact ih (hparts ▸ List.mem_cons_of_mem first h)

/-- Lines that are ended one by one are the lines of the text, and an empty one after
    them. -/
theorem splitOn_lines {lines : List (List Char)} (h : ∀ line ∈ lines, '\n' ∉ line) :
    (lines.flatMap fun line => line ++ ['\n']).splitOn '\n' = lines ++ [[]] := by
  induction lines with
  | nil => rfl
  | cons line rest ih =>
    have hline : '\n' ∉ line := h line List.mem_cons_self
    have hrest : ∀ l ∈ rest, '\n' ∉ l := fun l hl => h l (List.mem_cons_of_mem line hl)
    rw [List.flatMap_cons, List.append_assoc, List.singleton_append,
      List.splitOn_append_cons_self_of_not_mem hline, ih hrest, List.cons_append]

end Coverage.Text
