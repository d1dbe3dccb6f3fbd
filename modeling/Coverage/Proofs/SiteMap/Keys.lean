/-
  Coverage.Proofs.SiteMap.Keys

  The key of a function tells what it was made of.

  Neither line nor number has a colon, so a key is cut at its last two colons into the text of
  the name, the line and the number (`keyOf_eq_iff`), whatever colons and digits the name has.
  The text of a name tells the name, except that a function may be called what stands for no
  name (`nameText_eq_iff`).  Name and number are read from the key by the same two cuts
  (`name?_of_key`, `index_of_key`), so a key tells all that it was made of (`keys_readBack`).
-/

import Coverage.Proofs.Text.Decimal
import Coverage.SiteMap.FunctionSpan

namespace Coverage

namespace Text

variable {sep : Char} {back : List Char}

/-- A text without a separator is not cut. -/
theorem cutLast?_eq_none (h : sep ∉ back) : cutLast? sep back = none := by
  induction back with
  | nil => rfl
  | cons c rest ih =>
    obtain ⟨hc, hrest⟩ : sep ≠ c ∧ sep ∉ rest := by simpa using h
    rw [cutLast?, ih hrest]
    exact if_neg fun heq => hc heq.symm

/-- A separator with none after it is the last one. -/
theorem cutLast?_append (front : List Char) (h : sep ∉ back) :
    cutLast? sep (front ++ sep :: back) = some (front, back) := by
  induction front with
  | nil =>
    rw [List.nil_append, cutLast?, cutLast?_eq_none h]
    exact if_pos rfl
  | cons c rest ih => rw [List.cons_append, cutLast?, ih]

/-- What stands before and after a last separator is determined. -/
theorem append_inj_of_last {front front' back' : List Char} (h : sep ∉ back) (h' : sep ∉ back')
    (heq : front ++ sep :: back = front' ++ sep :: back') : front = front' ∧ back = back' := by
  have hcut := cutLast?_append front h
  rw [heq, cutLast?_append front' h'] at hcut
  exact ⟨(Prod.mk.inj (Option.some.inj hcut)).1.symm, (Prod.mk.inj (Option.some.inj hcut)).2.symm⟩

end Text

namespace FunctionSpan

open Text (cutLast? cutLast?_append append_inj_of_last Decimal.ofNat Decimal.ofNat_inj
  Decimal.not_mem_ofNat Decimal.unsigned?_ofNat Decimal.bound32)

/-- What stands for a name in a key. -/
def nameText (name : Option String) : List Char :=
  (name.map String.toList).getD anonymous

/-- A key is a name, a line and a number, with colons between them. -/
theorem toList_keyOf (name : Option String) (line index : Nat) :
    (keyOf name line index).toList
      = (nameText name ++ ':' :: Decimal.ofNat line) ++ ':' :: Decimal.ofNat index := by
  rw [keyOf, String.toList_ofList]
  rfl

/-- Digits hold no colon, so the last colon is the one before the number. -/
theorem colon_not_mem_ofNat (n : Nat) : ':' ∉ Decimal.ofNat n :=
  Decimal.not_mem_ofNat (by decide) n

/-- Keys are equal if their lines and numbers are, and what stands for their names. -/
theorem keyOf_eq_iff {name name' : Option String} {line line' index index' : Nat} :
    keyOf name line index = keyOf name' line' index'
      ↔ nameText name = nameText name' ∧ line = line' ∧ index = index' := by
  rw [← String.toList_inj, toList_keyOf, toList_keyOf]
  constructor
  · intro h
    obtain ⟨hfront, hindex⟩ :=
      append_inj_of_last (colon_not_mem_ofNat index) (colon_not_mem_ofNat index') h
    obtain ⟨hname, hline⟩ :=
      append_inj_of_last (colon_not_mem_ofNat line) (colon_not_mem_ofNat line') hfront
    exact ⟨hname, Decimal.ofNat_inj hline, Decimal.ofNat_inj hindex⟩
  · rintro ⟨hname, rfl, rfl⟩
    rw [hname]

/-- One name reads like that of a function without a name. -/
theorem nameText_some_eq_anonymous {name : String} :
    nameText (some name) = anonymous ↔ name = "(anonymous)" := by
  rw [show anonymous = "(anonymous)".toList by decide]
  exact String.toList_inj

/-- Names of one text are equal, or one of them looks like none and the other is none. -/
theorem nameText_eq_iff {name name' : Option String} : nameText name = nameText name'
    ↔ name = name' ∨ (name = none ∧ name' = some "(anonymous)")
      ∨ (name = some "(anonymous)" ∧ name' = none) := by
  cases name with
  | none =>
    cases name' with
    | none => simp
    | some name' =>
      rw [eq_comm, show nameText none = anonymous from rfl, nameText_some_eq_anonymous]
      simp
  | some name =>
    cases name' with
    | none =>
      rw [show nameText none = anonymous from rfl, nameText_some_eq_anonymous]
      simp
    | some name' =>
      rw [show nameText (some name) = name.toList from rfl,
        show nameText (some name') = name'.toList from rfl, String.toList_inj]
      simp

/-! ## Reading a key -/

section

variable {f : FunctionSpan} {name : Option String} {line index : Nat}

/-- The last colon cuts the number off. -/
theorem cutLast?_key (h : f.key = keyOf name line index) : cutLast? ':' f.key.toList
    = some (nameText name ++ ':' :: Decimal.ofNat line, Decimal.ofNat index) := by
  rw [h, toList_keyOf]
  exact cutLast?_append _ (colon_not_mem_ofNat index)

/-- The name is read back from a key, but for the one that stands for none. -/
theorem name?_of_key (h : f.key = keyOf name line index) (hname : name ≠ some "(anonymous)") :
    f.name? = name := by
  have hfront : cutLast? ':' (nameText name ++ ':' :: Decimal.ofNat line)
      = some (nameText name, Decimal.ofNat line) :=
    cutLast?_append _ (colon_not_mem_ofNat line)
  simp only [name?, cutLast?_key h, hfront]
  cases name with
  | none => exact if_pos rfl
  | some name =>
    have hother : nameText (some name) ≠ anonymous := fun heq =>
      hname (congrArg some (nameText_some_eq_anonymous.1 heq))
    rw [if_neg hother]
    exact congrArg some String.ofList_toList

/-- The number is read back from a key, if it fits its range. -/
theorem index_of_key (h : f.key = keyOf name line index) (hindex : index < Decimal.bound32) :
    f.index = index := by
  simp only [FunctionSpan.index, cutLast?_key h]
  rw [Decimal.unsigned?_ofNat hindex, Option.getD_some]

end

/-- A declared function has the name and the number it was given, and functions that differ in
    name, line or number have different keys, whatever their names.  Only a name that is the text
    for no name is read as none, since the two have one key. -/
theorem keys_readBack :
    (∀ name line index, name ≠ some "(anonymous)" → index < Decimal.bound32 →
        (declared name line index).name? = name ∧ (declared name line index).index = index)
      ∧ (∀ name name' line line' index index', name ≠ some "(anonymous)" →
        name' ≠ some "(anonymous)" → keyOf name line index = keyOf name' line' index' →
        name = name' ∧ line = line' ∧ index = index')
      ∧ ∀ line index, (declared (some "(anonymous)") line index).name? = none
        ∧ keyOf (some "(anonymous)") line index = keyOf none line index := by
  refine ⟨fun name line index hname hindex => ⟨name?_of_key rfl hname, index_of_key rfl hindex⟩,
    fun name name' line line' index index' hname hname' hkey => ?_, fun line index => ⟨?_, rfl⟩⟩
  · obtain ⟨htext, hline, hindex⟩ := keyOf_eq_iff.1 hkey
    rcases nameText_eq_iff.1 htext with heq | ⟨-, hlooks⟩ | ⟨hlooks, -⟩
    · exact ⟨heq, hline, hindex⟩
    · exact absurd hlooks hname'
    · exact absurd hlooks hname
  · -- The key is that of a function without a name.
    have hkey : (declared (some "(anonymous)") line index).key = keyOf none line index := rfl
    exact name?_of_key hkey (by decide)

theorem keys_readBack_colons :
    some "a:1:07" ≠ some "(anonymous)" ∧ 4294967295 < Decimal.bound32
      ∧ (declared (some "a:1:07") 3 4294967295).name? = some "a:1:07"
      ∧ (declared (some "a:1:07") 3 4294967295).index = 4294967295
      ∧ keyOf (some "f:1") 1 0 ≠ keyOf (some "f") 1 0 := by
  obtain ⟨hread, hkeys, -⟩ := keys_readBack
  obtain ⟨hname, hindex⟩ := hread (some "a:1:07") 3 4294967295 (by decide) (by decide)
  refine ⟨by decide, by decide, hname, hindex, fun heq => ?_⟩
  have hnames := (hkeys (some "f:1") (some "f") 1 1 0 0 (by decide) (by decide) heq).1
  exact absurd hnames (by decide)

end FunctionSpan
end Coverage
