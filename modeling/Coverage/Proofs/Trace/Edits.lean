/-
  Coverage.Proofs.Trace.Edits

  What may be changed in a trace without a reader noticing.

  A reader looks at trimmed lines, one after another.  Lines that say nothing can be put in
  anywhere, and blanks can be put around any line: the entries of the trace stay the same.
  A line that ends a section can be taken out if the section ends there anyway, with the text or
  at the path of the next section: that is one entry less, and what a reader then holds has the
  same sections (`sections_sectionEnd`).  The rest is induction over the edits
  (`read_edited`).
-/

import Coverage.Proofs.Text.Lines
import Coverage.Proofs.Text.WellFormed
import Coverage.Proofs.Trace.Records
import Mathlib.Logic.Relation

namespace Coverage.Trace

open Text (Utf8.text? Utf8.encode Utf8.ofString Utf8.text?_encode Utf8.text?_ofString isBlank trim
  trim_blank_append trim_append_blank not_mem_of_mem_splitOn)

/-! ## Lines that say nothing -/

/-- The tags of the lines that a reader looks at. -/
def recordTags : List (List Char) :=
  [['S', 'F'], ['F', 'N'], ['F', 'N', 'D', 'A'], ['D', 'A'], ['B', 'R', 'D', 'A']]

/-- A line that says nothing to a reader, blanks around it left aside: it is empty, it has no
    colon and does not end a section, or it has a tag that no record has. -/
inductive Ignorable (line : List Char) : Prop
  | empty (h : trim line = [])
  | untagged (hcolon : ':' ∉ trim line) (hend : trim line ≠ endText)
  | tagged {tag value : List Char} (h : trim line = tag ++ ':' :: value) (hcolon : ':' ∉ tag)
      (htag : tag ∉ recordTags)

/-- A line that gives the path of a section. -/
def GivesPath (line : List Char) : Prop :=
  ∃ path, trim line = ['S', 'F'] ++ ':' :: path

/-- A section that is open ends before the first of some lines that says anything, if there is
    one. -/
inductive EndsAnyway : List (List Char) → Prop
  | withText : EndsAnyway []
  | atPath {line : List Char} {later : List (List Char)} (h : GivesPath line) :
      EndsAnyway (line :: later)
  | after {line : List Char} {later : List (List Char)} (h : Ignorable line)
      (hlater : EndsAnyway later) : EndsAnyway (line :: later)

/-- A line that is ignorable is no entry. -/
theorem entry?_of_ignorable {line : List Char} (h : Ignorable line) :
    entry? (trim line) = none := by
  cases h with
  | empty h =>
    rw [h]
    decide
  | untagged hcolon hend =>
    unfold entry?
    rw [if_neg hend, Text.cutFirst?_eq_none hcolon]
  | @tagged tag value h hcolon htag =>
    simp only [recordTags, List.mem_cons, List.not_mem_nil, or_false, not_or] at htag
    obtain ⟨h₁, h₂, h₃, h₄, h₅⟩ := htag
    rw [h, readsAs_tagged tag hcolon, if_neg h₁, if_neg h₂, if_neg h₃, if_neg h₄, if_neg h₅]

/-- A line that gives a path is the entry of that path. -/
theorem GivesPath.exists_path {line : List Char} (h : GivesPath line) :
    ∃ path, entry? (trim line) = some (.path path) := by
  obtain ⟨path, hpath⟩ := h
  exact ⟨path, by rw [hpath, readsAs_tagged _ (by decide), if_pos rfl]⟩

/-! ## Edits -/

/-- One edit of the lines of a text. -/
inductive Edit : List (List Char) → List (List Char) → Prop
  /-- A line that says nothing is put between two lines, before the first or after the last. -/
  | inserted {before after : List (List Char)} {line : List Char} (hline : '\n' ∉ line)
      (h : Ignorable line) : Edit (before ++ after) (before ++ line :: after)
  /-- Blanks are put before the text of a line or behind it, where there is nothing but blanks
      between them and the end of the line. -/
  | padded {before after : List (List Char)} {front blanks back : List Char}
      (hblanks : ∀ c ∈ blanks, isBlank c = true ∧ c ≠ '\n')
      (hside : (∀ c ∈ front, isBlank c = true) ∨ ∀ c ∈ back, isBlank c = true) :
      Edit (before ++ (front ++ back) :: after) (before ++ (front ++ blanks ++ back) :: after)
  /-- A line ends with a carriage return before its line feed. -/
  | returned {before after : List (List Char)} {line : List Char} :
      Edit (before ++ line :: after) (before ++ (line ++ ['\r']) :: after)
  /-- A line that ends a section is taken out where the section ends anyway. -/
  | leftOpen {before after : List (List Char)} {line : List Char} (h : trim line = endText)
      (hafter : EndsAnyway after) : Edit (before ++ line :: after) (before ++ after)

/-- The entries of some lines. -/
def entriesOf (lines : List (List Char)) : List Entry :=
  lines.filterMap fun line => entry? (trim line)

theorem entriesOf_append (before after : List (List Char)) :
    entriesOf (before ++ after) = entriesOf before ++ entriesOf after :=
  List.filterMap_append

/-- A line that is ignorable may be taken out. -/
theorem entriesOf_ignorable {line : List Char} (h : Ignorable line) (later : List (List Char)) :
    entriesOf (line :: later) = entriesOf later :=
  List.filterMap_cons_none (entry?_of_ignorable h)

/-- Only the trimmed line matters. -/
theorem entriesOf_cons_congr {line line' : List Char} (h : trim line = trim line')
    (later : List (List Char)) : entriesOf (line :: later) = entriesOf (line' :: later) := by
  rw [entriesOf, entriesOf, List.filterMap_cons, List.filterMap_cons, h]

/-- Where a section ends anyway there is no further entry, or the next one is a path. -/
theorem EndsAnyway.entriesOf {later : List (List Char)} (h : EndsAnyway later) :
    entriesOf later = [] ∨ ∃ path rest, entriesOf later = .path path :: rest := by
  induction h with
  | withText => exact .inl rfl
  | @atPath line later h =>
    obtain ⟨path, hpath⟩ := h.exists_path
    exact .inr ⟨path, _, List.filterMap_cons_some hpath⟩
  | after h _ ih => rwa [entriesOf_ignorable h]

/-- Blanks that are put among the blanks at an end of a line are trimmed away with them. -/
theorem trim_padded {front blanks back : List Char} (hblanks : ∀ c ∈ blanks, isBlank c = true)
    (hside : (∀ c ∈ front, isBlank c = true) ∨ ∀ c ∈ back, isBlank c = true) :
    trim (front ++ blanks ++ back) = trim (front ++ back) := by
  rcases hside with hfront | hback
  · rw [List.append_assoc, trim_blank_append hfront, trim_blank_append hblanks,
      trim_blank_append hfront]
  · rw [trim_append_blank _ hback, trim_append_blank _ hblanks, trim_append_blank _ hback]

/-! ## What a reader then holds -/

/-- The sections that are read from some entries, last first. -/
def sectionsOf (xs : List Entry) : List Section :=
  (xs.foldl ReaderState.take .start).sections

/-- What is read of a text are the sections of its lines. -/
theorem read_eq (text : List Char) :
    read text = (sectionsOf (entriesOf (text.splitOn '\n'))).reverse :=
  rfl

/-- The end of a section makes no difference before the path of another one, or at the end. -/
theorem sections_sectionEnd (xs : List Entry) {ys : List Entry}
    (h : ys = [] ∨ ∃ path rest, ys = .path path :: rest) :
    sectionsOf (xs ++ .sectionEnd :: ys) = sectionsOf (xs ++ ys) := by
  rw [sectionsOf, sectionsOf, List.foldl_append, List.foldl_append, List.foldl_cons]
  generalize xs.foldl ReaderState.take .start = s
  rcases h with rfl | ⟨path, rest, rfl⟩
  · rfl
  · -- Both the end and the path close the open section and forget its declarations.
    have hclosed : (s.take .sectionEnd).take (.path path) = s.take (.path path) := rfl
    rw [List.foldl_cons, hclosed, List.foldl_cons]

/-- An edit changes no section. -/
theorem sections_edit {lines lines' : List (List Char)} (h : Edit lines lines') :
    sectionsOf (entriesOf lines') = sectionsOf (entriesOf lines) := by
  -- The first three edits leave the entries as they are; the last one takes out an end that comes
  -- by itself.
  cases h with
  | @inserted before after line _ h =>
    rw [entriesOf_append, entriesOf_ignorable h, ← entriesOf_append]
  | @padded before after front blanks back hblanks hside =>
    have htrim := trim_padded (fun c hc => (hblanks c hc).1) hside
    rw [entriesOf_append, entriesOf_cons_congr htrim, ← entriesOf_append]
  | @returned before after line =>
    have htrim : trim (line ++ ['\r']) = trim line :=
      trim_append_blank line (List.forall_mem_singleton.2 (by decide))
    rw [entriesOf_append, entriesOf_cons_congr htrim, ← entriesOf_append]
  | @leftOpen before after line h hafter =>
    have hend : entry? (trim line) = some .sectionEnd := by
      rw [h]
      exact if_pos rfl
    have hcons : entriesOf (line :: after) = .sectionEnd :: entriesOf after :=
      List.filterMap_cons_some hend
    rw [entriesOf_append, entriesOf_append, hcons, sections_sectionEnd _ hafter.entriesOf]

/-- What an edit makes are lines again. -/
theorem oneLine_edit {lines lines' : List (List Char)} (h : Edit lines lines')
    (hlines : ∀ line ∈ lines, '\n' ∉ line) : ∀ line ∈ lines', '\n' ∉ line := by
  -- Each edit brings in at most one line, and none that breaks.
  cases h with
  | inserted hline _ =>
    rw [List.forall_mem_append] at hlines
    exact List.forall_mem_append.2 ⟨hlines.1, List.forall_mem_cons.2 ⟨hline, hlines.2⟩⟩
  | @padded before after front blanks back hblanks _ =>
    rw [List.forall_mem_append, List.forall_mem_cons] at hlines
    obtain ⟨hbefore, hline, hafter⟩ := hlines
    have hclean : '\n' ∉ blanks := fun hmem => (hblanks _ hmem).2 rfl
    have hpadded : '\n' ∉ front ++ blanks ++ back := by
      simp only [List.mem_append, not_or] at hline ⊢
      exact ⟨⟨hline.1, hclean⟩, hline.2⟩
    exact List.forall_mem_append.2 ⟨hbefore, List.forall_mem_cons.2 ⟨hpadded, hafter⟩⟩
  | @returned before after line =>
    rw [List.forall_mem_append, List.forall_mem_cons] at hlines
    have hreturned : '\n' ∉ line ++ ['\r'] := by simpa using hlines.2.1
    exact List.forall_mem_append.2
      ⟨hlines.1, List.forall_mem_cons.2 ⟨hreturned, hlines.2.2⟩⟩
  | leftOpen _ _ =>
    rw [List.forall_mem_append, List.forall_mem_cons] at hlines
    exact List.forall_mem_append.2 ⟨hlines.1, hlines.2.2⟩

/-! ## Texts -/

/-- Lines put together are read as these lines. -/
theorem entries_intercalate {lines : List (List Char)} (h : ∀ line ∈ lines, '\n' ∉ line) :
    entries (['\n'].intercalate lines) = entriesOf lines := by
  by_cases hnil : lines = []
  · subst hnil
    decide
  · rw [entries, List.splitOn_intercalate '\n' h hnil, entriesOf]

/-- Nor do any number of edits, by induction on them. -/
theorem read_edited {text : List Char} {lines : List (List Char)}
    (h : Relation.ReflTransGen Edit (text.splitOn '\n') lines) :
    read (['\n'].intercalate lines) = read text := by
  have hkept : (∀ line ∈ lines, '\n' ∉ line)
      ∧ sectionsOf (entriesOf lines) = sectionsOf (entriesOf (text.splitOn '\n')) := by
    induction h with
    | refl => exact ⟨fun line hline => not_mem_of_mem_splitOn hline, rfl⟩
    | tail _ hedit ih => exact ⟨oneLine_edit hedit ih.1, (sections_edit hedit).trans ih.2⟩
  rw [read_eq text, ← hkept.2, read, entries_intercalate hkept.1, sectionsOf]

/-- A well-formed trace reads the same after any number of edits of its lines. -/
theorem readBytes_edited {bytes : Bytes} {s : String} (hs : Utf8.text? bytes = some s)
    {lines : List (List Char)} (h : Relation.ReflTransGen Edit (s.toList.splitOn '\n') lines) :
    ∃ sections, readBytes? bytes = some sections
      ∧ readBytes? (Utf8.encode (['\n'].intercalate lines)) = some sections := by
  refine ⟨read s.toList, ?_, ?_⟩
  · rw [readBytes?, hs, Option.map_some]
  · rw [readBytes?, Utf8.text?_encode, Option.map_some, String.toList_ofList, read_edited h]

/-- A trace of two sections, each with its end. -/
def twoSections : String :=
  "SF:a\nDA:1,1\nend_of_record\nSF:b\nDA:2,3\nend_of_record\n"

/-- The trace with other white space, a line of a tag that is no record, and no ends. -/
def noisySections : List (List Char) :=
  ["TN:".toList, "SF:a\r".toList, "\t DA:1,1".toList, "SF:b".toList, "DA:2,3".toList, []]

/-- One edit of each kind, the end of a section left out before a path and before the end of the
    text. -/
theorem edits_twoSections :
    Relation.ReflTransGen Edit (twoSections.toList.splitOn '\n') noisySections := by
  have hsplit : twoSections.toList.splitOn '\n'
      = ["SF:a".toList, "DA:1,1".toList, endText, "SF:b".toList, "DA:2,3".toList, endText, []] := by
    decide
  have hblank : Ignorable [] := .empty (by decide)
  have hcomment : Ignorable "TN:".toList :=
    .tagged (show trim "TN:".toList = ['T', 'N'] ++ ':' :: [] by decide) (by decide) (by decide)
  have hpath : GivesPath "SF:b".toList := ⟨['b'], by decide⟩
  have hend : trim endText = endText := by decide
  have hspaces : ∀ c ∈ ['\t', ' '], isBlank c = true ∧ c ≠ '\n' := by
    intro c hc
    rcases List.mem_cons.1 hc with rfl | hc
    · decide
    · rw [List.mem_singleton.1 hc]
      decide
  rw [hsplit]
  refine .head (@Edit.leftOpen ["SF:a".toList, "DA:1,1".toList] _ _ hend (.atPath hpath)) ?_
  refine .head (@Edit.leftOpen ["SF:a".toList, "DA:1,1".toList, "SF:b".toList, "DA:2,3".toList]
    _ _ hend (.after hblank .withText)) ?_
  refine .head (@Edit.padded ["SF:a".toList] _ [] ['\t', ' '] "DA:1,1".toList hspaces
    (.inl nofun)) ?_
  refine .head (@Edit.returned [] _ "SF:a".toList) ?_
  exact .single (@Edit.inserted [] _ "TN:".toList (by decide) hcomment)

theorem readBytes_edited_twoSections :
    ∃ sections, readBytes? (Utf8.ofString twoSections) = some sections
      ∧ readBytes? (Utf8.ofString "TN:\nSF:a\r\n\t DA:1,1\nSF:b\nDA:2,3\n")
        = some sections := by
  have hbytes : Utf8.ofString "TN:\nSF:a\r\n\t DA:1,1\nSF:b\nDA:2,3\n"
      = Utf8.encode (['\n'].intercalate noisySections) := rfl
  rw [hbytes]
  exact readBytes_edited (Utf8.text?_ofString twoSections) edits_twoSections

end Coverage.Trace
