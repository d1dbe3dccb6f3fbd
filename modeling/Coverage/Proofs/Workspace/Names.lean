/-
  Coverage.Proofs.Workspace.Names

  Files that stand in the working directory itself.

  A path of one name leads to the item under that name in the working directory, whatever
  else is in the tree and wherever that directory is.  So what becomes of one such file can
  be said apart from the others: writing or removing one leaves the rest as they are
  (`content?_setContent_of_ne`, `content?_delete_of_ne`).
-/

import Coverage.Workspace

namespace Coverage.Workspace

open Source (Path.isRooted)

/-- A path of one name, which is not a step in place or upwards. -/
structure IsName (name : String) : Prop where
  admissible : admissible name = true
  steps : steps name = [name]
  rooted : Path.isRooted name = false
  closed : name.toList.getLast? ≠ some '/'
  length : admissibleName name = true
  nonempty : name ≠ ""
  notHere : name ≠ "."
  notUp : name ≠ ".."

variable {w : Workspace} {name other : String} {names : List String} {content : Content}

/-! ## What is always there -/

/-- What is not on the way to the working directory is an item of the tree or not there. -/
theorem item?_of_not_prefix (h : ¬ names <+: w.base) : w.item? names = w.items.lookup names := by
  rw [item?, if_neg (by simpa using h)]

/-- A name in the working directory is not on the way to it. -/
theorem item?_child (w : Workspace) (name : String) :
    w.item? (w.base ++ [name]) = w.items.lookup (w.base ++ [name]) := by
  apply item?_of_not_prefix
  intro hway
  have hlength := hway.length_le
  rw [List.length_append, List.length_singleton] at hlength
  omega

/-- A file is never on the way to the working directory, so it is an item of the tree. -/
theorem lookup_of_item?_file {nanos : Int} (h : w.item? names = some (.file content nanos)) :
    w.items.lookup names = some (.file content nanos) := by
  unfold item? at h
  split at h
  · cases h
  · exact h

/-! ## Following a name -/

/-- A name leads to what has that name in the working directory. -/
theorem IsName.spot_eq (h : IsName name) (w : Workspace) :
    w.spot name = match w.items.lookup (w.base ++ [name]) with
      | some .directory => .directory (w.base ++ [name])
      | some (.file content nanos) => .file (w.base ++ [name]) content nanos
      | none => .vacant w.base name := by
  unfold spot start
  rw [if_neg (by rw [h.admissible]; decide), if_neg h.nonempty,
    if_neg (by rw [h.rooted]; decide), if_neg h.closed, h.steps, List.append_nil, follow,
    if_neg h.notHere, if_neg h.notUp, if_pos h.length, item?_child]
  cases w.items.lookup (w.base ++ [name]) with
  | none => rfl
  | some item =>
    cases item with
    | directory => rfl
    | file content nanos => rfl

/-- What a name leads to is what is at it in the working directory. -/
theorem IsName.content?_eq (h : IsName name) (w : Workspace) :
    w.content? name = match w.items.lookup (w.base ++ [name]) with
      | some (.file content _) => some content
      | _ => none := by
  rw [content?, h.spot_eq]
  cases w.items.lookup (w.base ++ [name]) with
  | none => rfl
  | some item => cases item <;> rfl

/-- A name leads to a directory if one is at it in the working directory. -/
theorem IsName.hasDirectory_eq (h : IsName name) (w : Workspace) :
    w.hasDirectory name = (w.items.lookup (w.base ++ [name]) == some .directory) := by
  rw [hasDirectory, h.spot_eq]
  cases w.items.lookup (w.base ++ [name]) with
  | none => rfl
  | some item => cases item <;> rfl

/-! ## The items of a tree -/

/-- A choice among names keeps or loses all that stands under them. -/
theorem lookup_filter (keep : List String → Bool) (names : List String)
    (items : List (List String × Item)) :
    (items.filter fun i => keep i.1).lookup names
      = if keep names then items.lookup names else none := by
  induction items with
  | nil => simp
  | cons i rest ih =>
    obtain ⟨key, item⟩ := i
    rw [List.filter_cons]
    by_cases hkey : names = key
    · subst hkey
      cases hkeep : keep names with
      | false =>
        rw [if_neg (by simp), ih, hkeep]
        rfl
      | true => rw [if_pos rfl, List.lookup_cons_self, List.lookup_cons_self, if_pos rfl]
    · have hbeq : (names == key) = false := beq_eq_false_iff_ne.2 hkey
      rw [List.lookup_cons, hbeq]
      cases hkeep : keep key with
      | false => exact ih
      | true =>
        rw [if_pos rfl, List.lookup_cons, hbeq]
        exact ih

/-- What is put at a place is there. -/
theorem lookup_put_self (w : Workspace) (names : List String) (item : Item) :
    (w.put names item).items.lookup names = some item :=
  List.lookup_cons_self

/-- Putting something at a place changes no other one. -/
theorem lookup_put_of_ne (w : Workspace) {names others : List String} (item : Item)
    (h : others ≠ names) : (w.put names item).items.lookup others = w.items.lookup others := by
  have hkeep := lookup_filter (fun n => decide (n ≠ names)) others w.items
  rw [if_pos (by simpa using h)] at hkeep
  rw [put, List.lookup_cons, beq_eq_false_iff_ne.2 h]
  exact hkeep

/-- What is put at a place is there, unless a directory was. -/
theorem item?_put_self (item : Item) (h : w.item? names ≠ some .directory) :
    (w.put names item).item? names = some item := by
  have hbase : ¬ names.isPrefixOf w.base = true := by
    intro hway
    exact h (if_pos hway)
  exact (if_neg hbase).trans (lookup_put_self w names item)

/-- Nor does it change what is seen at another one. -/
theorem item?_put_of_ne (w : Workspace) {names others : List String} (item : Item)
    (h : others ≠ names) : (w.put names item).item? others = w.item? others := by
  rw [item?, item?, lookup_put_of_ne w item h]
  rfl

@[simp] theorem items_ticked (w : Workspace) : w.ticked.items = w.items := rfl

@[simp] theorem base_ticked (w : Workspace) : w.ticked.base = w.base := rfl

@[simp] theorem item?_ticked (w : Workspace) (names : List String) :
    w.ticked.item? names = w.item? names :=
  rfl

@[simp] theorem base_put (w : Workspace) (names : List String) (item : Item) :
    (w.put names item).base = w.base :=
  rfl

/-! ## What can be read -/

/-- Whoever follows steps to a file finds an item of the tree. -/
theorem mem_of_follow {path names : List String} {nanos : Int} (here : List String)
    (h : w.follow here path = .file names content nanos) :
    (names, .file content nanos) ∈ w.items := by
  -- By induction on the steps: each leads on to a directory, or ends at a file that is listed.
  induction path generalizing here with
  | nil => cases h
  | cons step rest ih =>
    rw [follow] at h
    split at h
    · exact ih _ h
    · split at h
      · exact ih _ h
      · split at h
        · split at h
          · exact ih _ h
          · -- A file is found where the steps end.
            rename_i found time hitem
            split at h
            · cases h
              obtain ⟨before, after, hitems, -⟩ :=
                List.lookup_eq_some_iff.1 (lookup_of_item?_file hitem)
              rw [hitems]
              exact List.mem_append_right _ List.mem_cons_self
            · cases h
          · split at h
            · cases h
            · cases h
        · cases h

/-- What is read from a path is what some file of the tree holds. -/
theorem mem_of_read {path : String} {bytes : Bytes} {nanos : Int}
    (h : w.read path = .ok (bytes, nanos)) :
    ∃ names content, (names, .file content nanos) ∈ w.items ∧ content.bytes = bytes := by
  unfold read at h
  split at h
  · rename_i names content time hspot
    cases h
    refine ⟨names, content, ?_, rfl⟩
    unfold spot at hspot
    split at hspot
    · cases hspot
    · split at hspot
      · cases hspot
      · exact mem_of_follow _ hspot
  all_goals cases h

/-! ## Writing a file -/

/-- Setting the content of a free name puts a file at it, as new as the clock says. -/
theorem IsName.setContent_eq (h : IsName name) (hfree : w.hasDirectory name = false)
    (content : Content) :
    w.setContent name content = (w.put (w.base ++ [name]) (.file content w.clock)).ticked := by
  rw [h.hasDirectory_eq] at hfree
  unfold setContent putContent?
  rw [h.spot_eq]
  cases hitem : w.items.lookup (w.base ++ [name]) with
  | none => rfl
  | some item =>
    cases item with
    | directory =>
      rw [hitem] at hfree
      cases hfree
    | file old nanos => rfl

/-- A directory cannot be written. -/
theorem setContent_of_hasDirectory (hdir : w.hasDirectory name = true) :
    w.setContent name content = w := by
  rw [hasDirectory] at hdir
  unfold setContent putContent?
  cases hspot : w.spot name with
  | directory names => rfl
  | _ => simp [hspot] at hdir

@[simp] theorem base_setContent (w : Workspace) (path : String) (content : Content) :
    (w.setContent path content).base = w.base := by
  unfold setContent putContent?
  cases w.spot path <;> rfl

/-- The content that was set is found. -/
theorem content?_setContent_self (h : IsName name) (hfree : w.hasDirectory name = false) :
    (w.setContent name content).content? name = some content := by
  rw [h.setContent_eq hfree, h.content?_eq, items_ticked, base_ticked, base_put, lookup_put_self]

/-- Setting the content of one name leaves other names alone. -/
theorem lookup_setContent_of_ne (h : IsName name) (hne : other ≠ name) :
    (w.setContent name content).items.lookup (w.base ++ [other])
      = w.items.lookup (w.base ++ [other]) := by
  cases hfree : w.hasDirectory name with
  | false =>
    rw [h.setContent_eq hfree]
    exact lookup_put_of_ne w _ (by simpa using hne)
  | true => rw [setContent_of_hasDirectory hfree]

/-- So the contents of other files stay as they are. -/
theorem content?_setContent_of_ne (h : IsName name) (h' : IsName other) (hne : other ≠ name) :
    (w.setContent name content).content? other = w.content? other := by
  rw [h'.content?_eq, h'.content?_eq, base_setContent, lookup_setContent_of_ne h hne]

/-- Writing a file makes no directory and removes none. -/
theorem hasDirectory_setContent (h : IsName name) (h' : IsName other) :
    (w.setContent name content).hasDirectory other = w.hasDirectory other := by
  cases hfree : w.hasDirectory name with
  | true => rw [setContent_of_hasDirectory hfree]
  | false =>
    by_cases hne : other = name
    · subst hne
      rw [hfree, h.setContent_eq hfree, h.hasDirectory_eq, items_ticked, base_ticked, base_put,
        lookup_put_self]
      rfl
    · rw [h'.hasDirectory_eq, h'.hasDirectory_eq, base_setContent,
        lookup_setContent_of_ne h hne]

/-! ## Removing a file -/

@[simp] theorem base_delete (w : Workspace) (path : String) : (w.delete path).base = w.base := by
  unfold delete
  cases w.spot path with
  | directory names =>
    dsimp only
    split <;> rfl
  | _ => rfl

/-- Deleting a file takes out what is at its name, and what was said to be below it. -/
theorem IsName.delete_eq (h : IsName name) (hitem : (w.content? name).isSome) :
    w.delete name
      = { w with items := w.items.filter fun i => !(w.base ++ [name]).isPrefixOf i.1 } := by
  rw [h.content?_eq] at hitem
  unfold delete
  rw [h.spot_eq]
  cases hlookup : w.items.lookup (w.base ++ [name]) with
  | none => simp [hlookup] at hitem
  | some item =>
    cases item with
    | directory => simp [hlookup] at hitem
    | file content nanos => rfl

/-- A file that was deleted is not found. -/
theorem content?_delete_self (h : IsName name) (hitem : (w.content? name).isSome) :
    (w.delete name).content? name = none := by
  have hgone := lookup_filter (fun n => !(w.base ++ [name]).isPrefixOf n) (w.base ++ [name]) w.items
  rw [if_neg (by simp)] at hgone
  rw [h.delete_eq hitem, h.content?_eq, hgone]

/-- Deleting one name leaves other names alone. -/
theorem lookup_delete_of_ne (h : IsName name) (hitem : (w.content? name).isSome)
    (hne : other ≠ name) : (w.delete name).items.lookup (w.base ++ [other])
      = w.items.lookup (w.base ++ [other]) := by
  have hkept := lookup_filter (fun n => !(w.base ++ [name]).isPrefixOf n)
    (w.base ++ [other]) w.items
  have hway : ¬ w.base ++ [name] <+: w.base ++ [other] := by
    rw [List.prefix_append_right_inj]
    simpa using hne.symm
  rw [← List.isPrefixOf_iff_prefix, Bool.not_eq_true] at hway
  rw [if_pos (by rw [hway]; rfl)] at hkept
  rw [h.delete_eq hitem]
  exact hkept

/-- So the contents of other files stay as they are. -/
theorem content?_delete_of_ne (h : IsName name) (h' : IsName other)
    (hitem : (w.content? name).isSome) (hne : other ≠ name) :
    (w.delete name).content? other = w.content? other := by
  rw [h'.content?_eq, h'.content?_eq, base_delete, lookup_delete_of_ne h hitem hne]

/-- Deleting a file takes no directory away. -/
theorem hasDirectory_delete (h : IsName name) (h' : IsName other)
    (hitem : (w.content? name).isSome) :
    (w.delete name).hasDirectory other = w.hasDirectory other := by
  by_cases hne : other = name
  · subst hne
    -- What was deleted was a file, so no directory was there before.
    have hfile : w.hasDirectory other = false := by
      rw [h.content?_eq] at hitem
      rw [h.hasDirectory_eq]
      cases hlookup : w.items.lookup (w.base ++ [other]) with
      | none => rfl
      | some item =>
        cases item with
        | directory => simp [hlookup] at hitem
        | file content nanos => rfl
    have hgone := lookup_filter (fun n => !(w.base ++ [other]).isPrefixOf n)
      (w.base ++ [other]) w.items
    rw [if_neg (by simp)] at hgone
    rw [hfile, h.delete_eq hitem, h.hasDirectory_eq, hgone]
    rfl
  · rw [h'.hasDirectory_eq, h'.hasDirectory_eq, base_delete, lookup_delete_of_ne h hitem hne]

end Coverage.Workspace
