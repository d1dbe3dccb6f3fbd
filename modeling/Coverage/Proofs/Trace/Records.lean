/-
  Coverage.Proofs.Trace.Records

  Every record of a trace is read back from its line.

  `Record.meaning?` says what a reader is to make of a record: the records that count what was
  found and hit tell it nothing.  A record is legible if its texts stay on one line and end
  in no blank, and its numbers are in the range of the reader (`readsAs_text`).
-/

import Coverage.Proofs.Text.Decimal
import Coverage.Proofs.Text.Lines
import Coverage.Trace.Reader
import Coverage.Trace.Writer

namespace Coverage.Trace

open Text (isBlank cutFirst? cutUpTo cutFirst?_append cutUpTo_append trim trim_eq_self)
open Text.Decimal (ofNat unsigned?_ofNat signed?_ofNat not_mem_ofNat bound32 bound63 bound64)

/-! ## Texts that keep to one line -/

/-- A text that can end a line: it has no line end, and no blank at its end. -/
structure Plain (cs : List Char) : Prop where
  oneLine : '\n' ∉ cs
  noBlankEnd : ∀ c ∈ cs.getLast?, isBlank c = false

variable {back cs : List Char}

/-- A character that is not blank may stand in front of plain text. -/
theorem Plain.cons {c : Char} (h : Plain cs) (hc : isBlank c = false) : Plain (c :: cs) where
  oneLine := fun hmem => by
    rcases List.mem_cons.1 hmem with rfl | hmem
    · revert hc
      decide
    · exact h.oneLine hmem
  noBlankEnd := fun d hd => by
    cases cs with
    | nil =>
      cases hd
      exact hc
    | cons e rest =>
      rw [List.getLast?_cons_cons] at hd
      exact h.noBlankEnd d hd

/-- So may some characters of which none is blank. -/
theorem Plain.append (h : Plain back) (front : List Char) (hfront : front.any isBlank = false) :
    Plain (front ++ back) := by
  induction front with
  | nil => exact h
  | cons c rest ih =>
    rw [List.any_cons, Bool.or_eq_false_iff] at hfront
    exact (ih hfront.2).cons hfront.1

theorem plain_nil : Plain [] where
  oneLine := List.not_mem_nil
  noBlankEnd := fun _ hc => by cases hc

theorem not_isBlank_of_mem_ofNat {n : Nat} {c : Char} (h : c ∈ ofNat n) : isBlank c = false :=
  Text.isBlank_of_isDigit (Text.Decimal.isDigit_of_mem_ofNat h)

/-- A number may stand in front of plain text. -/
theorem Plain.afterNumber (h : Plain back) (n : Nat) : Plain (ofNat n ++ back) :=
  h.append _ (List.any_eq_false.2 fun _ hc => by simp [not_isBlank_of_mem_ofNat hc])

theorem plain_ofNat (n : Nat) : Plain (ofNat n) := by
  have h := plain_nil.afterNumber n
  rwa [List.append_nil] at h

/-! ## Legible records -/

/-- How often an exit was taken, if its decision ran. -/
def timesTaken : ExitState → Option Nat
  | .notReached => none
  | .notTaken => some 0
  | .taken n => some n

/-- The letters that name a category in the records that count it. -/
def tags : List (List Char) :=
  [['F', 'N'], ['B', 'R'], ['L']]

theorem any_isBlank_tag : ∀ tag ∈ tags, tag.any isBlank = false := by
  decide

/-- No tag is empty, or begins with a blank. -/
theorem head_tag : ∀ tag ∈ tags, ∃ c rest, tag = c :: rest ∧ isBlank c = false := by
  simp only [tags, List.forall_mem_cons]
  exact ⟨⟨_, _, rfl, by decide⟩, ⟨_, _, rfl, by decide⟩, ⟨_, _, rfl, by decide⟩,
    fun _ h => absurd h List.not_mem_nil⟩

/-- The records that count a category have tags of their own. -/
theorem unread_tag : ∀ tag ∈ tags, ∀ letter ∈ ['F', 'H'], ':' ∉ tag ++ [letter]
    ∧ tag ++ [letter] ≠ ['S', 'F'] ∧ tag ++ [letter] ≠ ['F', 'N']
    ∧ tag ++ [letter] ≠ ['F', 'N', 'D', 'A'] ∧ tag ++ [letter] ≠ ['D', 'A']
    ∧ tag ++ [letter] ≠ ['B', 'R', 'D', 'A'] := by
  intro tag htag
  refine List.forall_mem_cons.2 ⟨?_, List.forall_mem_singleton.2 ?_⟩
  all_goals revert tag
  all_goals decide

namespace Record

/-- What a reader makes of a record. -/
def meaning? : Record → Option Entry
  | .path p => some (.path p)
  | .function line key => some (.declaration line key)
  | .calls hits key => some (.calls hits key)
  | .exit line index state => some (.branch line 0 index (timesTaken state))
  | .ran line hits => some (.line line hits)
  | .found .. => none
  | .hit .. => none
  | .sectionEnd => some .sectionEnd

/-- Whether a record can be read back. -/
def Legible : Record → Prop
  | .path p => Plain p
  | .function line key => line < bound32 ∧ Plain key
  | .calls hits key => hits < bound64 ∧ Plain key
  | .exit line index state =>
    line < bound32 ∧ index < bound32 ∧ ∀ n, state = .taken n → n ≤ ExitState.countLimit
  | .ran line hits => line < bound32 ∧ hits < bound63
  | .found tag _ => tag ∈ tags
  | .hit tag _ => tag ∈ tags
  | .sectionEnd => True

/-- What stands for the state of an exit is a number or a dash. -/
theorem plain_takenText (state : ExitState) : Plain (takenText state) := by
  cases state with
  | notReached => exact plain_nil.cons (by decide)
  | notTaken => exact plain_ofNat 0
  | taken n => exact plain_ofNat _

/-- The record of an exit, from its tag on. -/
theorem text_exit (line index : Nat) (state : ExitState) :
    (exit line index state).text = ['B', 'R', 'D', 'A', ':']
      ++ (ofNat line ++ ',' :: '0' :: ',' :: (ofNat index ++ ',' :: takenText state)) := by
  simp [text]

/-- The text of a legible record can end a line. -/
theorem plain_text {r : Record} (h : r.Legible) : Plain r.text := by
  have hcomma : isBlank ',' = false := by decide
  -- From the end of each record to its front, over commas and numbers to the tag.
  cases r with
  | path p => exact h.append ['S', 'F', ':'] (by decide)
  | function line key =>
    have hvalue : Plain (ofNat line ++ ',' :: key) := (h.2.cons hcomma).afterNumber line
    exact hvalue.append ['F', 'N', ':'] (by decide)
  | calls hits key =>
    have hvalue : Plain (ofNat hits ++ ',' :: key) := (h.2.cons hcomma).afterNumber hits
    exact hvalue.append ['F', 'N', 'D', 'A', ':'] (by decide)
  | exit line index state =>
    have htaken : Plain (ofNat index ++ ',' :: takenText state) :=
      ((plain_takenText state).cons hcomma).afterNumber index
    have hvalue :
        Plain (ofNat line ++ ',' :: '0' :: ',' :: (ofNat index ++ ',' :: takenText state)) :=
      (((htaken.cons hcomma).cons (by decide)).cons hcomma).afterNumber line
    have htext := hvalue.append ['B', 'R', 'D', 'A', ':'] (by decide)
    rw [text_exit]
    exact htext
  | ran line hits =>
    have hvalue : Plain (ofNat line ++ ',' :: ofNat hits) :=
      ((plain_ofNat hits).cons hcomma).afterNumber line
    exact hvalue.append ['D', 'A', ':'] (by decide)
  | found tag n =>
    have hvalue : Plain ('F' :: ':' :: ofNat n) :=
      ((plain_ofNat n).cons (by decide)).cons (by decide)
    exact hvalue.append tag (any_isBlank_tag tag h)
  | hit tag n =>
    have hvalue : Plain ('H' :: ':' :: ofNat n) :=
      ((plain_ofNat n).cons (by decide)).cons (by decide)
    exact hvalue.append tag (any_isBlank_tag tag h)
  | sectionEnd => exact plain_nil.append endText (by decide)

/-- No record begins with a blank. -/
theorem head_text {r : Record} (h : r.Legible) : ∀ c ∈ r.text.head?, isBlank c = false := by
  -- Only the records that state a number have a tag that is not spelled out.
  cases r with
  | found tag n =>
    obtain ⟨d, rest, rfl, hd⟩ := head_tag tag h
    intro c hc
    cases hc
    exact hd
  | hit tag n =>
    obtain ⟨d, rest, rfl, hd⟩ := head_tag tag h
    intro c hc
    cases hc
    exact hd
  | _ =>
    intro c hc
    cases hc
    decide

/-- So there is nothing to trim from a record. -/
theorem trim_text {r : Record} (h : r.Legible) : trim r.text = r.text :=
  trim_eq_self (head_text h) (plain_text h).noBlankEnd

end Record

/-! ## Reading a record back -/

theorem not_mem_endText : ':' ∉ endText := by
  decide

/-- A line is read by its tag. -/
theorem readsAs_tagged (tag : List Char) (htag : ':' ∉ tag) (value : List Char) :
    entry? (tag ++ ':' :: value)
      = if tag = ['S', 'F'] then some (.path value)
        else if tag = ['F', 'N'] then declaration? value
        else if tag = ['F', 'N', 'D', 'A'] then calls? value
        else if tag = ['D', 'A'] then line? value
        else if tag = ['B', 'R', 'D', 'A'] then branch? value
        else none := by
  -- The end of a section is the one line without a colon.
  have hend : tag ++ ':' :: value ≠ endText := by
    intro heq
    refine not_mem_endText ?_
    rw [← heq]
    exact List.mem_append_right tag List.mem_cons_self
  unfold entry?
  rw [if_neg hend, cutFirst?_append htag]

/-- Digits hold no comma, so a number ends at the first one. -/
theorem comma_not_mem_ofNat (n : Nat) : ',' ∉ ofNat n :=
  not_mem_ofNat (by decide) n

/-- A function is read back with its line and its key; the key may hold commas. -/
theorem declaration?_text {line : Nat} (h : line < bound32) (key : List Char) :
    declaration? (ofNat line ++ ',' :: key) = some (.declaration line key) := by
  rw [declaration?, cutFirst?_append (comma_not_mem_ofNat line)]
  simp only [Option.bind_eq_bind, Option.bind_some, unsigned?_ofNat h]
  rfl

theorem calls?_text {hits : Nat} (h : hits < bound64) (key : List Char) :
    calls? (ofNat hits ++ ',' :: key) = some (.calls hits key) := by
  rw [calls?, cutFirst?_append (comma_not_mem_ofNat hits)]
  simp only [Option.bind_eq_bind, Option.bind_some, unsigned?_ofNat h]
  rfl

/-- A line is read back with its hits. -/
theorem line?_text {line hits : Nat} (hline : line < bound32) (hhits : hits < bound63) :
    line? (ofNat line ++ ',' :: ofNat hits) = some (.line line hits) := by
  have hparts : cutUpTo ',' 2 (ofNat line ++ ',' :: ofNat hits) = [ofNat line, ofNat hits] := by
    rw [cutUpTo_append (comma_not_mem_ofNat line),
      Text.cutUpTo_of_not_mem (comma_not_mem_ofNat hits)]
  rw [line?, hparts]
  simp only [Option.bind_eq_bind, Option.bind_some, unsigned?_ofNat hline, signed?_ofNat hhits]

theorem Record.takenText_taken (n : Nat) :
    takenText (.taken n) = ofNat (min n ExitState.countLimit) :=
  rfl

/-- Digits are not mistaken for the dash of an exit that was not reached. -/
theorem Record.takenText_eq_dash {state : ExitState} :
    takenText state = ['-'] ↔ state = .notReached := by
  have hnumber : ∀ n, ofNat n ≠ ['-'] := by
    intro n heq
    refine not_mem_ofNat (c := '-') (by decide) n ?_
    rw [heq]
    exact List.mem_singleton_self _
  cases state with
  | notReached => exact iff_of_true rfl rfl
  | notTaken => exact iff_of_false (hnumber 0) nofun
  | taken n => exact iff_of_false (hnumber _) nofun

/-- A dash is read as none, and a number as itself. -/
theorem takenText_spec {state : ExitState}
    (h : ∀ n, state = .taken n → n ≤ ExitState.countLimit) :
    (if Record.takenText state = ['-'] then none
      else some ((Text.Decimal.unsigned? bound64 (Record.takenText state)).getD 0))
      = timesTaken state := by
  cases state with
  | notReached => rfl
  | notTaken => rfl
  | taken n =>
    have hn := h n rfl
    have hlimit : ExitState.countLimit < bound64 := by decide
    have hdash : Record.takenText (.taken n) ≠ ['-'] := fun heq =>
      nomatch Record.takenText_eq_dash.1 heq
    rw [if_neg hdash, Record.takenText_taken, Nat.min_eq_left hn, unsigned?_ofNat (by omega)]
    rfl

/-- An exit is read back with the times it was taken. -/
theorem branch?_text {line index : Nat} {state : ExitState} (hline : line < bound32)
    (hindex : index < bound32) (h : ∀ n, state = .taken n → n ≤ ExitState.countLimit) :
    branch? (ofNat line ++ ',' :: ('0' :: ',' :: (ofNat index ++ ',' :: Record.takenText state)))
      = some (.branch line 0 index (timesTaken state)) := by
  have hzero : ofNat 0 = ['0'] := rfl
  have hparts :
      cutUpTo ',' 3
          (ofNat line ++ ',' :: ('0' :: ',' :: (ofNat index ++ ',' :: Record.takenText state)))
        = [ofNat line, ofNat 0, ofNat index, Record.takenText state] := by
    rw [cutUpTo_append (comma_not_mem_ofNat line),
      show '0' :: ',' :: (ofNat index ++ ',' :: Record.takenText state)
        = ofNat 0 ++ ',' :: (ofNat index ++ ',' :: Record.takenText state) from rfl,
      cutUpTo_append (comma_not_mem_ofNat 0), cutUpTo_append (comma_not_mem_ofNat index)]
    rfl
  rw [branch?, hparts]
  simp only [Option.bind_eq_bind, Option.bind_some, unsigned?_ofNat hline,
    unsigned?_ofNat (show 0 < bound32 by decide), unsigned?_ofNat hindex, takenText_spec h]

/-- A record that states a number is passed over by the reader. -/
theorem readsAs_counted {tag : List Char} (htag : tag ∈ tags) {letter : Char}
    (hletter : letter ∈ ['F', 'H']) (n : Nat) :
    entry? (tag ++ letter :: ':' :: ofNat n) = none := by
  obtain ⟨hcolon, h₁, h₂, h₃, h₄, h₅⟩ := unread_tag tag htag letter hletter
  have hread := readsAs_tagged _ hcolon (ofNat n)
  rw [if_neg h₁, if_neg h₂, if_neg h₃, if_neg h₄, if_neg h₅, List.append_assoc,
    List.singleton_append] at hread
  exact hread

/-- What a reader makes of the line of a record. -/
theorem readsAs_text {r : Record} (h : r.Legible) : entry? (trim r.text) = r.meaning? := by
  rw [Record.trim_text h]
  -- The tag tells which reader gets the rest.
  cases r with
  | path p => exact readsAs_tagged ['S', 'F'] (by decide) p
  | function line key =>
    exact (readsAs_tagged ['F', 'N'] (by decide) _).trans (declaration?_text h.1 key)
  | calls hits key =>
    exact (readsAs_tagged ['F', 'N', 'D', 'A'] (by decide) _).trans (calls?_text h.1 key)
  | exit line index state =>
    have hread := (readsAs_tagged ['B', 'R', 'D', 'A'] (by decide) _).trans
      (branch?_text h.1 h.2.1 h.2.2)
    rw [Record.text_exit]
    exact hread
  | ran line hits =>
    exact (readsAs_tagged ['D', 'A'] (by decide) _).trans (line?_text h.1 h.2)
  | found tag n => exact readsAs_counted h (by decide) n
  | hit tag n => exact readsAs_counted h (by decide) n
  | sectionEnd => exact if_pos rfl

end Coverage.Trace
