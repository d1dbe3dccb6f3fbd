/-
  Coverage.Proofs.Workspace.Growth

  Trees that only grow.

  Making directories and writing files takes nothing away: what was a directory stays one, and
  where there was a file there still is one, perhaps with other bytes (`Grows`).  So a path
  that led to a directory or to a file still does (`Grows.spot`), and directories that have
  been made once are found when they are made again (`Grows.makeDirectory_again`).
-/

import Coverage.Proofs.Workspace.Places

namespace Coverage.Workspace

variable {w w' w'' : Workspace} {names : List String} {path : String} {content : Content}
  {nanos : Int} {bytes : Bytes}

/-- From one tree to the other directories stay directories, files stay files, and the working
    directory stays where it is. -/
structure Grows (w w' : Workspace) : Prop where
  base : w'.base = w.base
  directories : ∀ names, w.item? names = some .directory →
    w'.item? names = some .directory
  files : ∀ names content nanos, w.item? names = some (.file content nanos) →
    ∃ content nanos, w'.item? names = some (.file content nanos)

theorem Grows.refl (w : Workspace) : Grows w w :=
  ⟨rfl, fun _ h => h, fun _ content nanos h => ⟨content, nanos, h⟩⟩

theorem Grows.trans (h : Grows w w') (h' : Grows w' w'') : Grows w w'' where
  base := h'.base.trans h.base
  directories := fun names hd => h'.directories names (h.directories names hd)
  files := fun names content nanos hf => by
    obtain ⟨content', nanos', hf'⟩ := h.files names content nanos hf
    exact h'.files names content' nanos' hf'

theorem Grows.ticked (h : Grows w w') : Grows w w'.ticked :=
  ⟨h.base, h.directories, h.files⟩

/-! ## What a path leads to -/

/-- One spot stands for what is left of another in a tree that has grown: directories and files
    are still there. -/
def Spot.Stays : Spot → Spot → Prop
  | .directory names, s => s = .directory names
  | .file names _ _, s => ∃ content nanos, s = .file names content nanos
  | _, _ => True

/-- Where steps lead to a file or a directory they still do so when the tree has grown. -/
theorem Grows.follow (h : Grows w w') (names path : List String) :
    (w.follow names path).Stays (w'.follow names path) := by
  -- By induction on the steps: a directory on the way is there still, and so is the file at the
  -- end.
  induction path generalizing names with
  | nil => rfl
  | cons step rest ih =>
    rw [Workspace.follow, Workspace.follow]
    split
    · exact ih names
    · split
      · exact ih (outward names)
      · split
        · cases hitem : w.item? (names ++ [step]) with
          | none =>
            dsimp only
            split
            · trivial
            · trivial
          | some item =>
            cases item with
            | directory =>
              rw [h.directories _ hitem]
              exact ih (names ++ [step])
            | file content nanos =>
              obtain ⟨content', nanos', hitem'⟩ := h.files _ content nanos hitem
              rw [hitem']
              dsimp only
              split
              · exact ⟨content', nanos', rfl⟩
              · trivial
        · trivial

/-- So paths that lead somewhere lead there still. -/
theorem Grows.spot (h : Grows w w') (path : String) : (w.spot path).Stays (w'.spot path) := by
  unfold Workspace.spot
  split
  · trivial
  · split
    · trivial
    · rw [h.base]
      exact h.follow _ _

/-- A directory stays one. -/
theorem Grows.hasDirectory (h : Grows w w') (hdirectory : w.hasDirectory path = true) :
    w'.hasDirectory path = true := by
  have hstays := h.spot path
  unfold Workspace.hasDirectory at hdirectory ⊢
  split at hdirectory
  · rename_i names hspot
    rw [hspot] at hstays
    rw [show w'.spot path = .directory names from hstays]
  · cases hdirectory

/-- What could be read can still be read. -/
theorem Grows.read (h : Grows w w') (hread : w.read path = .ok (bytes, nanos)) :
    ∃ bytes nanos, w'.read path = .ok (bytes, nanos) := by
  have hstays := h.spot path
  unfold Workspace.read at hread ⊢
  split at hread
  · rename_i names content time hspot
    rw [hspot] at hstays
    obtain ⟨content', nanos', hspot'⟩ := hstays
    rw [hspot']
    exact ⟨content'.bytes, nanos', rfl⟩
  all_goals cases hread

/-! ## Changes under which a tree grows -/

/-- A file may be put where no directory is. -/
theorem grows_put_file (h : w.item? names ≠ some .directory) (content : Content)
    (nanos : Int) : Grows w (w.put names (.file content nanos)) where
  base := rfl
  directories := fun others hd => by
    have hnames : others ≠ names := by
      rintro rfl
      exact h hd
    rw [item?_put_of_ne w _ hnames, hd]
  files := fun others old time hf => by
    by_cases hnames : others = names
    · rw [hnames, item?_put_self _ h]
      exact ⟨content, nanos, rfl⟩
    · rw [item?_put_of_ne w _ hnames, hf]
      exact ⟨old, time, rfl⟩

/-- A directory may be put where nothing is. -/
theorem grows_put_directory (h : w.item? names = none) :
    Grows w (w.put names .directory) := by
  have hother {others : List String} {item : Item} (hitem : w.item? others = some item) :
      (w.put names .directory).item? others = some item := by
    have hnames : others ≠ names := by
      rintro rfl
      rw [h] at hitem
      cases hitem
    rw [item?_put_of_ne w _ hnames, hitem]
  exact ⟨rfl, fun _ hd => hother hd, fun _ content nanos hf => ⟨content, nanos, hother hf⟩⟩

/-- Making directories step by step takes nothing away, even if a step is blocked. -/
theorem grows_makeSteps (w : Workspace) (names path : List String) :
    Grows w (w.makeSteps names path).2 := by
  induction path generalizing w names with
  | nil => exact .refl w
  | cons step rest ih =>
    rw [makeSteps]
    split
    · exact ih w names
    · split
      · exact ih w (outward names)
      · split
        · split
          · exact ih w (names ++ [step])
          · exact .refl w
          · -- Only here is something put, and nothing was there.
            rename_i hitem
            exact (grows_put_directory hitem).trans (ih _ (names ++ [step]))
        · exact .refl w

/-- Nor does making those around a path. -/
theorem grows_makeAround (w : Workspace) (path : String) : Grows w (w.makeAround path).2 := by
  unfold makeAround
  split
  · exact .refl w
  · exact grows_makeSteps w _ _

/-- Nor does making a directory. -/
theorem grows_makeDirectory (w : Workspace) (path : String) :
    Grows w (w.makeDirectory path).2 := by
  unfold makeDirectory
  split
  · exact .refl w
  · split
    · exact grows_makeAround w path
    · exact grows_makeSteps w _ _

/-- A file that is written takes no other one away. -/
theorem grows_write (h : w.write? path bytes = some w') : Grows w w' := by
  obtain ⟨hopen, rfl⟩ := write?_eq_some h
  exact (grows_put_file ((w.isAt_spot path).not_directory hopen) _ _).ticked

/-- A file that was written is read back, and is as old as the clock said. -/
theorem read_write (h : w.write? path bytes = some w') : w'.read path = .ok (bytes, w.clock) := by
  obtain ⟨hopen, rfl⟩ := write?_eq_some h
  rw [read, spot_ticked, spot_put hopen]
  rfl

/-- What is appended to takes no other file away. -/
theorem grows_append (h : w.append? path bytes = some w') : Grows w w' := by
  unfold append? at h
  split at h
  · exact grows_write h
  · exact grows_write h

/-- Where a file can be read, it can be written. -/
theorem write_of_read (h : w.read path = .ok (bytes, nanos)) (new : Bytes) :
    ∃ w', w.write? path new = some w' := by
  unfold Workspace.read at h
  split at h
  · rename_i found content time hspot
    refine ⟨(w.put found (.file (.plain new) w.clock)).ticked, ?_⟩
    rw [write?, writeAt?, putContent?, hspot]
    rfl
  all_goals cases h

/-! ## Directories that are there already -/

/-- Directories that were made are there, so making them again changes nothing. -/
theorem Grows.makeSteps_again {path : List String} (hmade : w.makeSteps names path = (true, w'))
    (h : Grows w' w'') : w''.makeSteps names path = (true, w'') := by
  induction path generalizing w names with
  | nil => rfl
  | cons step rest ih =>
    rw [makeSteps] at hmade ⊢
    split at hmade
    · rename_i hhere
      rw [if_pos hhere]
      exact ih hmade
    · rename_i hhere
      rw [if_neg hhere]
      split at hmade
      · rename_i hup
        rw [if_pos hup]
        exact ih hmade
      · rename_i hup
        rw [if_neg hup]
        split at hmade
        · rename_i hname
          rw [if_pos hname]
          -- Whether the directory was there or is made now, it is there afterwards.
          have hthere (x : Workspace) (hx : x.item? (names ++ [step]) = some .directory)
              (hrest : x.makeSteps (names ++ [step]) rest = (true, w')) :
              w''.item? (names ++ [step]) = some .directory := by
            have hgrows := grows_makeSteps x (names ++ [step]) rest
            rw [hrest] at hgrows
            exact (hgrows.trans h).directories _ hx
          split at hmade
          · rename_i hitem
            rw [hthere w hitem hmade]
            exact ih hmade
          · cases hmade
          · rename_i hitem
            rw [hthere _ (item?_put_self _ (by rw [hitem]; simp)) hmade]
            exact ih hmade
        · cases hmade

/-- The working directory stays where it is. -/
theorem Grows.base_eq {path : List String} (hmade : w.makeSteps names path = (true, w'))
    (h : Grows w' w'') : w''.base = w.base := by
  rw [h.base, ← base_makeSteps w names path, hmade]

/-- So it is for the directories around a path. -/
theorem Grows.makeAround_again (hmade : w.makeAround path = (true, w')) (h : Grows w' w'') :
    w''.makeAround path = (true, w'') := by
  unfold makeAround at hmade ⊢
  split at hmade
  · cases hmade
  · rename_i hpath
    rw [if_neg hpath, h.base_eq hmade]
    exact h.makeSteps_again hmade

/-- A directory that has been made is found when it is made again. -/
theorem Grows.makeDirectory_again (hmade : w.makeDirectory path = (true, w')) (h : Grows w' w'') :
    w''.makeDirectory path = (true, w'') := by
  unfold makeDirectory at hmade ⊢
  split at hmade
  · cases hmade
  · rename_i hpath
    rw [if_neg hpath]
    split at hmade
    · -- A path that ends in a dot makes only what is around it, and asks for the rest.
      rename_i hlast
      rw [if_pos hlast]
      obtain ⟨hdone, rfl⟩ := Prod.mk.inj hmade
      rw [Bool.and_eq_true] at hdone
      have hagain := h.makeAround_again (Prod.ext hdone.1 rfl)
      rw [hagain]
      exact Prod.ext (Bool.and_eq_true_iff.2 ⟨rfl, h.hasDirectory hdone.2⟩) rfl
    · rename_i hlast
      rw [if_neg hlast, h.base_eq hmade]
      exact h.makeSteps_again hmade

end Coverage.Workspace
