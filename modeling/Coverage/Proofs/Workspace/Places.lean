/-
  Coverage.Proofs.Workspace.Places

  Files anywhere in a tree, told apart by the place of their paths.

  The place of a path are the names from the root that its steps lead to, whether or not they
  are there: steps from the root for a path that begins with a slash, and from the working
  directory for any other (`placeOf`).
  A path that leads to a file leads to the one at its place (`isAt_spot`), so whoever writes a
  path changes that place alone, and two paths with different places never meet.  This needs
  nothing of the tree, which may hold files without the directories around them.
-/

import Coverage.Proofs.Text.Lines
import Coverage.Proofs.Workspace.Names

namespace Coverage

/-! ## Paths put together -/

namespace Source.Path

/-- The parts of a path hold no slash. -/
theorem slash_not_mem_of_mem_parts {path part : String} (h : part ∈ parts path) :
    '/' ∉ part.toList := by
  obtain ⟨cs, hcs, rfl⟩ := List.mem_map.1 h
  rw [String.toList_ofList]
  exact Text.not_mem_of_mem_splitOn hcs

/-- The names of a path are parts of it, and none of them is a step that stays or goes up. -/
theorem mem_parts_of_mem_names {path name : String} (h : name ∈ names path) :
    name ∈ parts path ∧ name ≠ "" ∧ name ≠ "." ∧ name ≠ ".." := by
  obtain ⟨component, hmem, hname⟩ := List.mem_filterMap.1 h
  obtain rfl : component = .name name := by
    cases component with
    | name other => exact congrArg Component.name (Option.some.inj hname)
    | _ => cases hname
  rw [components] at hmem
  rcases List.mem_append.1 hmem with hmem | hmem
  · -- What a path begins with is no name.
    split at hmem
    · cases List.mem_singleton.1 hmem
    · split at hmem
      · cases List.mem_singleton.1 hmem
      · cases hmem
  · -- A part is a name unless it is empty, a dot, or two.
    obtain ⟨part, hpart, hcomponent⟩ := List.mem_filterMap.1 hmem
    unfold component? at hcomponent
    split at hcomponent
    · cases hcomponent
    · rename_i hblank
      split at hcomponent
      · cases hcomponent
      · rename_i hup
        cases hcomponent
        exact ⟨hpart, not_or.1 hblank |>.1, not_or.1 hblank |>.2, hup⟩

/-- Names without a slash that are joined by slashes are the parts of the whole. -/
theorem parts_intercalate {names : List String} (h : ∀ name ∈ names, '/' ∉ name.toList)
    (hne : names ≠ []) : parts ("/".intercalate names) = names := by
  have hnames : ∀ cs ∈ names.map String.toList, '/' ∉ cs := by
    simpa using h
  have hslash : "/".toList = ['/'] := by decide
  rw [parts, String.toList_intercalate, hslash,
    List.splitOn_intercalate '/' hnames (by simpa using hne), List.map_map]
  exact (List.map_congr_left fun name _ => String.ofList_toList).trans (List.map_id names)

theorem parts_slash (front back : List Char) : parts (String.ofList (front ++ '/' :: back))
    = parts (String.ofList front) ++ parts (String.ofList back) := by
  simp only [parts, String.toList_ofList, List.splitOn_append_cons_self, List.map_append]

/-- A path inside a directory is set apart from it by a slash, which may be the directory's own. -/
theorem join_cases {path : String} (h : isRooted path = false) (directory : String) :
    directory = "" ∧ join directory path = path
      ∨ ∃ front, join directory path = String.ofList (front ++ '/' :: path.toList)
        ∧ (directory = String.ofList (front ++ ['/'])
          ∨ directory = String.ofList front ∧ front ≠ []) := by
  rw [join, if_neg (by rw [h]; exact Bool.false_ne_true)]
  split
  · exact .inl ⟨‹_›, rfl⟩
  · rename_i hne
    split
    · rename_i hlast
      -- The directory brings the slash along.
      obtain ⟨front, hfront⟩ := List.getLast?_eq_some_iff.1 hlast
      refine .inr ⟨front, ?_, .inl ?_⟩
      · simp [String.ext_iff, hfront]
      · rw [← hfront, String.ofList_toList]
    · refine .inr ⟨directory.toList, ?_, .inr ⟨?_, ?_⟩⟩
      · simp [String.ext_iff]
      · rw [String.ofList_toList]
      · simpa using hne

end Source.Path

namespace Workspace

open Source (Path.parts Path.isRooted Path.join Path.slash_not_mem_of_mem_parts
  Path.mem_parts_of_mem_names Path.parts_intercalate)

variable {w w' : Workspace} {names : List String} {path : String} {content : Content}
  {nanos : Int} {bytes : Bytes}

/-- The steps of a path inside a directory are those of the directory and its own. -/
theorem steps_join {path : String} (h : Path.isRooted path = false) (directory : String) :
    steps (Path.join directory path) = steps directory ++ steps path := by
  have hslash (front back : List Char) :
      steps (String.ofList (front ++ '/' :: back))
        = steps (String.ofList front) ++ steps (String.ofList back) := by
    rw [steps, Source.Path.parts_slash, List.filter_append, steps, steps]
  have hempty : steps (String.ofList []) = [] := by decide
  rcases Source.Path.join_cases h directory with ⟨rfl, hjoin⟩ | ⟨front, hjoin, rfl | ⟨rfl, -⟩⟩
  · rw [hjoin]
    rfl
  · rw [hjoin, hslash, hslash, hempty, List.append_nil, String.ofList_toList]
  · rw [hjoin, hslash, String.ofList_toList]

/-- The steps of names joined by slashes are the names. -/
theorem steps_intercalate (h : ∀ name ∈ names, '/' ∉ name.toList ∧ name ≠ "")
    (hne : names ≠ []) : steps ("/".intercalate names) = names := by
  rw [steps, Path.parts_intercalate (fun name hmem => (h name hmem).1) hne,
    List.filter_eq_self]
  simpa using fun name hmem => (h name hmem).2

/-! ## Places -/

/-- The names that steps from a directory lead to, whether or not they are there. -/
def place (names : List String) : List String → List String
  | [] => names
  | step :: rest =>
    if step = "." then place names rest
    else if step = ".." then place (outward names) rest
    else place (names ++ [step]) rest

/-- The names that a path leads to, with the working directory at `base`. -/
def placeOf (base : List String) (path : String) : List String :=
  place (start base path) (steps path)

/-- Steps lead on from where others end. -/
theorem place_append (names front back : List String) :
    place names (front ++ back) = place (place names front) back := by
  induction front generalizing names with
  | nil => rfl
  | cons step rest ih =>
    simp only [List.cons_append, place]
    split
    · exact ih names
    · split
      · exact ih (outward names)
      · exact ih (names ++ [step])

/-- Steps that are all names lead straight on. -/
theorem place_of_names {steps : List String} (h : ∀ step ∈ steps, step ≠ "." ∧ step ≠ "..") :
    place names steps = names ++ steps := by
  induction steps generalizing names with
  | nil => exact (List.append_nil names).symm
  | cons step rest ih =>
    obtain ⟨hhere, hup⟩ := h step List.mem_cons_self
    rw [place, if_neg hhere, if_neg hup, ih fun s hs => h s (List.mem_cons_of_mem step hs),
      List.append_assoc, List.singleton_append]

/-- A path inside a directory begins where the directory's own path begins. -/
theorem start_join (h : Path.isRooted path = false) (base : List String) (directory : String) :
    start base (Path.join directory path) = start base directory := by
  have hrooted : Path.isRooted (Path.join directory path) = Path.isRooted directory := by
    rcases Source.Path.join_cases h directory with ⟨rfl, hjoin⟩ | ⟨front, hjoin, hdirectory⟩
    · rw [hjoin, h]
      rfl
    · -- The slash between them decides only where the directory is nothing but that slash.
      rcases hdirectory with rfl | ⟨rfl, hne⟩
      · rw [hjoin]
        cases front <;> simp [Path.isRooted]
      · rw [hjoin]
        cases front with
        | nil => exact absurd rfl hne
        | cons c rest => simp [Path.isRooted]
  rw [start, start, hrooted]

/-- What is inside a directory is reached from its place. -/
theorem placeOf_join (h : Path.isRooted path = false) (base : List String) (directory : String) :
    placeOf base (Path.join directory path) = place (placeOf base directory) (steps path) := by
  rw [placeOf, steps_join h, start_join h, place_append]
  rfl

/-! ## What is at a place -/

/-- The content of the file at a place. -/
def fileAt? (w : Workspace) (names : List String) : Option Content :=
  match w.item? names with
  | some (.file content _) => some content
  | _ => none

/-- The bytes of the file at a place; none if there is no file. -/
def bytesAt (w : Workspace) (names : List String) : Bytes :=
  ((w.fileAt? names).map Content.bytes).getD []

/-- What is put at a place changes no file at another one. -/
theorem fileAt?_put_of_ne (w : Workspace) {names others : List String} (item : Item)
    (h : others ≠ names) : (w.put names item).fileAt? others = w.fileAt? others := by
  rw [fileAt?, item?_put_of_ne w item h, fileAt?]

@[simp] theorem fileAt?_ticked (w : Workspace) (names : List String) :
    w.ticked.fileAt? names = w.fileAt? names :=
  rfl

/-- The clock does not matter to where steps lead. -/
theorem follow_ticked (w : Workspace) (names path : List String) :
    w.ticked.follow names path = w.follow names path := by
  induction path generalizing names with
  | nil => rfl
  | cons step rest ih => simp only [follow, item?_ticked, ih]

@[simp] theorem spot_ticked (w : Workspace) (path : String) : w.ticked.spot path = w.spot path := by
  rw [spot, spot, follow_ticked, base_ticked]

/-- A spot that is at a place: a file is the one there, and a vacant name is that of the
    place. -/
def Spot.IsAt (w : Workspace) (names : List String) : Spot → Prop
  | .file found content nanos => found = names ∧ w.item? names = some (.file content nanos)
  | .vacant around name => around ++ [name] = names ∧ w.item? names = none
  | _ => True

/-- A spot at which a file can be written. -/
def Spot.IsOpen : Spot → Prop
  | .file .. => True
  | .vacant .. => True
  | _ => False

/-- Where a file may be written there is no directory. -/
theorem Spot.IsAt.not_directory {spot : Spot} (h : spot.IsAt w names) (hopen : spot.IsOpen) :
    w.item? names ≠ some .directory := by
  cases spot with
  | file found content nanos =>
    rw [h.2]
    exact fun heq => by cases heq
  | vacant around name =>
    rw [h.2]
    exact fun heq => by cases heq
  | _ => exact hopen.elim

/-- Steps that lead to something lead to what is at their place. -/
theorem isAt_follow (w : Workspace) (names path : List String) :
    (w.follow names path).IsAt w (place names path) := by
  -- By induction on the steps, which go through directories only; the place goes the same way
  -- whatever is there.
  induction path generalizing names with
  | nil => trivial
  | cons step rest ih =>
    rw [follow, place]
    split
    · exact ih names
    · split
      · exact ih (outward names)
      · split
        · split
          · exact ih (names ++ [step])
          · rename_i content nanos hitem
            split
            · rename_i hrest
              subst hrest
              exact ⟨rfl, hitem⟩
            · trivial
          · rename_i hitem
            split
            · rename_i hrest
              subst hrest
              exact ⟨rfl, hitem⟩
            · trivial
        · trivial

/-- A slash at the end of a path is a step in place. -/
theorem place_closing (base : List String) (path : String) :
    place (start base path) (steps path ++ if path.toList.getLast? = some '/' then ["."] else [])
      = placeOf base path := by
  rw [place_append]
  split
  · rfl
  · rfl

/-- A path leads to what is at its place, if it leads anywhere. -/
theorem isAt_spot (w : Workspace) (path : String) :
    (w.spot path).IsAt w (placeOf w.base path) := by
  unfold spot
  split
  · trivial
  · split
    · trivial
    · rw [← place_closing]
      exact isAt_follow w _ _

/-- Where a path is open, it leads to what is at its place. -/
theorem content?_eq_fileAt? (hopen : (w.spot path).IsOpen) :
    w.content? path = w.fileAt? (placeOf w.base path) := by
  have hat := w.isAt_spot path
  rw [content?, fileAt?]
  cases hspot : w.spot path with
  | file found content nanos =>
    rw [hspot] at hat
    rw [hat.2]
  | vacant around name =>
    rw [hspot] at hat
    rw [hat.2]
  | _ =>
    rw [hspot] at hopen
    exact hopen.elim

/-- What is read from a path is at its place. -/
theorem bytesAt_of_read (h : w.read path = .ok (bytes, nanos)) :
    w.bytesAt (placeOf w.base path) = bytes := by
  unfold read at h
  split at h
  · rename_i found content time hspot
    have hcontent : w.content? path = w.fileAt? (placeOf w.base path) :=
      content?_eq_fileAt? (hspot ▸ trivial)
    cases h
    rw [bytesAt, ← hcontent, content?, hspot]
    rfl
  all_goals cases h

/-! ## Writing at a place -/

/-- Steps to a place where a file can be written lead to the file that is written there. -/
theorem follow_put {path : List String} (hopen : (w.follow names path).IsOpen) :
    (w.put (place names path) (.file content nanos)).follow names path
      = .file (place names path) content nanos := by
  have hfree := (isAt_follow w names path).not_directory hopen
  -- By induction on the steps: what is on the way is not touched, since the place is beyond it.
  induction path generalizing names with
  | nil => exact hopen.elim
  | cons step rest ih =>
    rw [place] at hfree ⊢
    rw [follow] at hopen ⊢
    by_cases hhere : step = "."
    · simp only [if_pos hhere] at hfree hopen ⊢
      exact ih hopen hfree
    by_cases hup : step = ".."
    · simp only [if_neg hhere, if_pos hup] at hfree hopen ⊢
      exact ih hopen hfree
    by_cases hname : admissibleName step = true
    · simp only [if_neg hhere, if_neg hup, if_pos hname] at hfree hopen ⊢
      by_cases hrest : rest = []
      · subst hrest
        rw [place] at hfree ⊢
        rw [item?_put_self _ hfree]
        rfl
      · -- A directory that is passed is not the place, which is none.
        cases hitem : w.item? (names ++ [step]) with
        | none =>
          simp only [hitem, if_neg hrest] at hopen
          exact hopen.elim
        | some item =>
          cases item with
          | file old time =>
            simp only [hitem, if_neg hrest] at hopen
            exact hopen.elim
          | directory =>
            have hne : names ++ [step] ≠ place (names ++ [step]) rest := by
              intro heq
              rw [← heq] at hfree
              exact hfree hitem
            simp only [hitem] at hopen
            rw [item?_put_of_ne w _ hne, hitem]
            exact ih hopen hfree
    · simp only [if_neg hhere, if_neg hup, if_neg hname] at hopen
      exact hopen.elim

/-- A path at which a file can be written leads to the file that is written there. -/
theorem spot_put (hopen : (w.spot path).IsOpen) :
    (w.put (placeOf w.base path) (.file content nanos)).spot path
      = .file (placeOf w.base path) content nanos := by
  unfold spot at hopen ⊢
  split at hopen
  · exact hopen.elim
  · rename_i hadmissible
    split at hopen
    · exact hopen.elim
    · rename_i hempty
      rw [if_neg hadmissible, if_neg hempty, base_put, ← place_closing]
      exact follow_put hopen

/-- Whoever writes a file changes its place alone, and can write there only where a path is
    open. -/
theorem putContent?_eq_some (h : w.putContent? path content nanos = some w') :
    (w.spot path).IsOpen ∧ w' = w.put (placeOf w.base path) (.file content nanos) := by
  have hat := w.isAt_spot path
  unfold putContent? at h
  split at h
  · rename_i found old time hspot
    rw [hspot] at hat ⊢
    cases h
    exact ⟨trivial, hat.1 ▸ rfl⟩
  · rename_i around name hspot
    rw [hspot] at hat ⊢
    cases h
    exact ⟨trivial, hat.1 ▸ rfl⟩
  · cases h

/-- A file that is written is put at its place. -/
theorem write?_eq_some (h : w.write? path bytes = some w') :
    (w.spot path).IsOpen
      ∧ w' = (w.put (placeOf w.base path) (.file (.plain bytes) w.clock)).ticked := by
  obtain ⟨written, hwritten, rfl⟩ := Option.map_eq_some_iff.1 h
  obtain ⟨hopen, rfl⟩ := putContent?_eq_some hwritten
  exact ⟨hopen, rfl⟩

/-- Writing a file leaves the working directory where it is. -/
theorem base_write? (h : w.write? path bytes = some w') : w'.base = w.base := by
  obtain ⟨-, rfl⟩ := write?_eq_some h
  rfl

/-- What is written at the end of a file comes after the bytes at its place, and can be read
    there with them. -/
theorem append?_eq_some (h : w.append? path bytes = some w') :
    w' = (w.put (placeOf w.base path)
        (.file (.plain (w.bytesAt (placeOf w.base path) ++ bytes)) w.clock)).ticked
      ∧ w'.read path = .ok (w.bytesAt (placeOf w.base path) ++ bytes, w.clock) := by
  have hwrite : w.write? path (((w.content? path).map Content.bytes).getD [] ++ bytes)
      = some w' := by
    unfold append? at h
    cases hcontent : w.content? path with
    | none => rwa [hcontent] at h
    | some old => rwa [hcontent] at h
  obtain ⟨hopen, hw⟩ := write?_eq_some hwrite
  rw [content?_eq_fileAt? hopen] at hw
  refine ⟨hw, ?_⟩
  rw [hw, read, spot_ticked, spot_put hopen]
  rfl

@[simp] theorem base_makeSteps (w : Workspace) (here path : List String) :
    (w.makeSteps here path).2.base = w.base := by
  induction path generalizing w here with
  | nil => rfl
  | cons step rest ih =>
    rw [makeSteps]
    split
    · exact ih w here
    · split
      · exact ih w (outward here)
      · split
        · split
          · exact ih w (here ++ [step])
          · rfl
          · exact ih _ (here ++ [step])
        · rfl

@[simp] theorem base_makeDirectory (w : Workspace) (path : String) :
    (w.makeDirectory path).2.base = w.base := by
  unfold makeDirectory
  split
  · rfl
  · rename_i hpath
    split
    · show (w.makeAround path).2.base = _
      rw [makeAround, if_neg hpath, base_makeSteps]
    · exact base_makeSteps w _ _

/-- A new directory is no file, and no file has made way for it. -/
theorem fileAt?_makeSteps (w : Workspace) (here path names : List String) :
    (w.makeSteps here path).2.fileAt? names = w.fileAt? names := by
  induction path generalizing w here with
  | nil => rfl
  | cons step rest ih =>
    rw [makeSteps]
    split
    · exact ih w here
    · split
      · exact ih w (outward here)
      · split
        · split
          · exact ih w (here ++ [step])
          · rfl
          · rename_i hitem
            rw [ih]
            -- Nothing was where a directory is made, so no file either.
            by_cases hname : names = here ++ [step]
            · rw [hname, fileAt?, fileAt?, hitem, item?_put_self _ (by rw [hitem]; simp)]
            · exact fileAt?_put_of_ne w .directory hname
        · rfl

theorem fileAt?_makeDirectory (w : Workspace) (path : String) (names : List String) :
    (w.makeDirectory path).2.fileAt? names = w.fileAt? names := by
  unfold makeDirectory
  split
  · rfl
  · rename_i hpath
    split
    · show (w.makeAround path).2.fileAt? names = _
      rw [makeAround, if_neg hpath, fileAt?_makeSteps]
    · exact fileAt?_makeSteps w _ _ names

end Workspace
end Coverage
