/-
  Coverage.Proofs.Cache.Transaction

  Writes that fail leave a store as it was.

  `Store.save` gives a new store or a fault.  A database changes its rows in place instead,
  one statement after another, and undoes them when one fails: the old entry is gone and
  part of the new one is there by then, or many entries of a bundle are.  `Store.perform`
  does a write that way.  A statement never touches the store that a transaction can go back
  to (`before_run`), so a write that is cut off at any statement leaves nothing behind, and
  one that is not comes to what `Store.save` and `Store.importBundle` give (`perform_eq`).

  Together with what the tables accept this settles when a write to a store fails, whatever
  has happened to the store before (`failsCleanly_run`).
-/

import Coverage.Proofs.Cache.Acceptance

namespace Coverage

/-- An operation comes to a fault. -/
def Fails {α : Type} (x : Except Fault α) : Prop :=
  ∃ f, x = .error f

theorem fails_iff {α : Type} {x : Except Fault α} : Fails x ↔ ¬∃ a, x = .ok a := by
  cases x with
  | error f => simp [Fails]
  | ok a => simp [Fails]

namespace Cache

/-! ## Statements -/

/-- One statement of a transaction. Rows of a map go under the entry that was added last. -/
inductive Statement where
  | removeEntry (id : String)
  | addEntry (r : Revision)
  | addLine (line : Nat)
  | addExit (line index : Nat)
  | addCandidate (line index candidate : Nat)
  | addFunction (f : FunctionSpan)

/-- A store that is being changed. -/
structure Transaction where
  /-- The store to go back to. -/
  before : Store
  now : Store
  /-- The number of the entry that was added last. -/
  entry : Nat

namespace Transaction

/-- Nothing is changed yet. -/
def begin (s : Store) : Transaction :=
  ⟨s, s, 0⟩

/-- Other tables in the store that is being changed. -/
def setTables (t : Transaction) (tables : Tables) : Transaction :=
  { t with now := { t.now with tables } }

end Transaction

/-- The transaction after a statement. -/
def Statement.run (t : Transaction) : Statement → Except Fault Transaction
  | .removeEntry id => .ok (t.setTables (t.now.tables.remove id))
  | .addEntry r =>
    if t.now.refuses then .error .diskFull
    else .ok { t.setTables (t.now.tables.withEntry r) with entry := t.now.tables.nextNumber }
  | .addLine line => .ok (t.setTables (Tables.addLine t.entry t.now.tables line))
  | .addExit line index => do
    return t.setTables (← Tables.addExit t.entry t.now.tables ⟨line, index, []⟩)
  | .addCandidate line index candidate =>
    .ok (t.setTables (Tables.addCandidate ⟨t.entry, line, index⟩ t.now.tables candidate))
  | .addFunction f => do return t.setTables (← Tables.addFunction t.entry t.now.tables f)

/-- The transaction after some statements, or up to the first one that fails, with its
    fault. What the statements before it have changed is not undone here. -/
def Transaction.run (t : Transaction) : List Statement → Option Fault × Transaction
  | [] => (none, t)
  | x :: rest =>
    match x.run t with
    | .ok t' => t'.run rest
    | .error f => (some f, t)

/-- Does some statements in one transaction: either all of them count, or the store goes
    back to what it was. -/
def Store.transact (s : Store) (xs : List Statement) : Except Fault Unit × Store :=
  match (Transaction.begin s).run xs with
  | (none, t) => (.ok (), t.now)
  | (some f, t) => (.error f, t.before)

/-! ## Going back -/

section

variable {t t' : Transaction} {x : Statement} {xs : List Statement}

/-- A statement does not touch the store to go back to. -/
theorem before_run (h : x.run t = .ok t') : t'.before = t.before := by
  -- No statement looks at the store to go back to.
  cases x with
  | removeEntry id =>
    cases h
    rfl
  | addEntry r =>
    rw [Statement.run] at h
    split at h
    · cases h
    · cases h
      rfl
  | addLine line =>
    cases h
    rfl
  | addExit line index =>
    obtain ⟨tables, -, heq⟩ := bind_eq_ok.1 h
    cases heq
    rfl
  | addCandidate line index candidate =>
    cases h
    rfl
  | addFunction f =>
    obtain ⟨tables, -, heq⟩ := bind_eq_ok.1 h
    cases heq
    rfl

/-- Statements that all succeed come to the same as one after another. -/
theorem run_of_ok (h : xs.foldlM Statement.run t = .ok t') : t.run xs = (none, t') := by
  induction xs generalizing t with
  | nil =>
    rw [List.foldlM_nil] at h
    rw [← Except.ok.inj h]
    rfl
  | cons x rest ih =>
    rw [List.foldlM_cons] at h
    obtain ⟨t₁, h₁, hrest⟩ := bind_eq_ok.1 h
    rw [Transaction.run, h₁]
    exact ih hrest

/-- Wherever a transaction is cut off, it can go back to where it began. -/
theorem run_of_error {f : Fault} (h : xs.foldlM Statement.run t = .error f) :
    ∃ t', t.run xs = (some f, t') ∧ t'.before = t.before := by
  induction xs generalizing t with
  | nil => cases h
  | cons x rest ih =>
    rw [List.foldlM_cons] at h
    rw [Transaction.run]
    -- The statements before the fault have changed the store, but not the one to go back to.
    cases hx : x.run t with
    | error g =>
      rw [hx] at h
      obtain rfl : g = f := Except.error.inj h
      exact ⟨t, rfl, rfl⟩
    | ok t₁ =>
      rw [hx, ok_bind] at h
      obtain ⟨t', hrun, hbefore⟩ := ih h
      exact ⟨t', hrun, hbefore.trans (before_run hx)⟩

end

/-! ## Writes as statements -/

/-- The statements that add an exit. -/
def exitStatements (e : BranchExit) : List Statement :=
  .addExit e.line e.index :: e.candidates.map (.addCandidate e.line e.index)

/-- The statements that add a map. -/
def mapStatements (m : SiteMap) : List Statement :=
  m.lines.map .addLine ++ (m.exits.flatMap exitStatements
    ++ m.functions.flatMap fun f => [.addFunction f])

/-- The statements that save the map of a revision. -/
def saveStatements (r : Revision) (m : SiteMap) : List Statement :=
  .removeEntry r.id.text :: .addEntry r :: mapStatements m

section

variable {α : Type} {t : Transaction}

/-- Rows that are never refused are added one by one, under the entry that was added last. -/
theorem foldlM_rows {g : α → Statement} (f : Nat → Tables → α → Tables)
    (h : ∀ (t : Transaction) (a : α),
      (g a).run t = .ok (t.setTables (f t.entry t.now.tables a))) (as : List α) :
    (as.map g).foldlM Statement.run t
      = .ok (t.setTables (as.foldl (f t.entry) t.now.tables)) := by
  induction as generalizing t with
  | nil => rfl
  | cons a rest ih =>
    rw [List.map_cons, List.foldlM_cons, h, ok_bind]
    exact ih

/-- Things that may be refused are added one by one, each with its statements. -/
theorem foldlM_groups {g : α → List Statement} {f : Nat → Tables → α → Except Fault Tables}
    (h : ∀ (t : Transaction) (a : α), (g a).foldlM Statement.run t
      = do return t.setTables (← f t.entry t.now.tables a)) (as : List α) :
    (as.flatMap g).foldlM Statement.run t
      = do return t.setTables (← as.foldlM (f t.entry) t.now.tables) := by
  induction as generalizing t with
  | nil => rfl
  | cons a rest ih =>
    rw [List.flatMap_cons, List.foldlM_append, h, List.foldlM_cons]
    cases f t.entry t.now.tables a with
    | error fault => rfl
    | ok tables =>
      -- The statements of one thing leave the number of the entry as it is.
      rw [ok_bind, ok_bind]
      exact ih

/-- The statements of an exit add the exit with its candidates. -/
theorem foldlM_exit (t : Transaction) (e : BranchExit) :
    (exitStatements e).foldlM Statement.run t
      = do return t.setTables (← Tables.addExit t.entry t.now.tables e) := by
  rw [exitStatements, List.foldlM_cons, Statement.run]
  -- Whether an exit is accepted does not depend on its candidates.
  simp only [Tables.addExit]
  split
  · rfl
  · rw [ok_bind]
    exact foldlM_rows (fun n => Tables.addCandidate ⟨n, e.line, e.index⟩) (fun _ _ => rfl)
      e.candidates

/-- The statement of a function adds it. -/
theorem foldlM_function (t : Transaction) (f : FunctionSpan) :
    [Statement.addFunction f].foldlM Statement.run t
      = do return t.setTables (← Tables.addFunction t.entry t.now.tables f) := by
  rw [List.foldlM_cons, Statement.run]
  cases Tables.addFunction t.entry t.now.tables f with
  | error fault => rfl
  | ok tables => rfl

/-- The statements of a map add the map. -/
theorem foldlM_map (t : Transaction) (m : SiteMap) :
    (mapStatements m).foldlM Statement.run t
      = do return t.setTables (← Tables.addMap t.entry t.now.tables m) := by
  let lined := m.lines.foldl (Tables.addLine t.entry) t.now.tables
  have hlines : (m.lines.map Statement.addLine).foldlM Statement.run t
      = .ok (t.setTables lined) :=
    foldlM_rows Tables.addLine (fun _ _ => rfl) m.lines
  have hexits : (m.exits.flatMap exitStatements).foldlM Statement.run (t.setTables lined)
      = do return t.setTables (← m.exits.foldlM (Tables.addExit t.entry) lined) :=
    foldlM_groups foldlM_exit m.exits
  rw [mapStatements, List.foldlM_append, hlines, ok_bind, List.foldlM_append, hexits,
    Tables.addMap]
  cases m.exits.foldlM (Tables.addExit t.entry) lined with
  | error f => rfl
  | ok tables => exact foldlM_groups (t := t.setTables tables) foldlM_function m.functions

/-- The statements that save a map come to what saving it comes to. -/
theorem foldlM_save (t : Transaction) (r : Revision) (m : SiteMap) :
    (saveStatements r m).foldlM Statement.run t
      = do return { t with
            now := ← t.now.save r m
            entry := (t.now.tables.remove r.id.text).nextNumber } := by
  let removed := t.now.tables.remove r.id.text
  rw [saveStatements, List.foldlM_cons, Statement.run, ok_bind, List.foldlM_cons, Statement.run,
    Store.save]
  show (if t.now.refuses then _ else _) >>= _ = _
  split
  · rfl
  · rw [ok_bind, foldlM_map, Tables.addEntry_eq]
    -- Either way it hangs on the rows of the map under the new number.
    have hsame : ∀ x : Except Fault Tables,
        (do return { t.setTables (← x) with entry := removed.nextNumber } :
            Except Fault Transaction)
          = do return { t with
              now := ← (do return { t.now with tables := ← x } : Except Fault Store)
              entry := removed.nextNumber } := by
      intro x
      cases x with
      | error f => rfl
      | ok tables => rfl
    exact hsame (Tables.addMap removed.nextNumber (removed.withEntry r) m)

/-- The statements that save some maps come to what saving one after another comes to. -/
theorem foldlM_saves (t : Transaction) (entries : List (Revision × SiteMap)) :
    (do return (← (entries.flatMap fun e => saveStatements e.1 e.2).foldlM Statement.run t).now)
      = entries.foldlM (fun s e => s.save e.1 e.2) t.now := by
  induction entries generalizing t with
  | nil => rfl
  | cons e rest ih =>
    rw [List.flatMap_cons, List.foldlM_append, foldlM_save, List.foldlM_cons]
    cases t.now.save e.1 e.2 with
    | error f => rfl
    | ok s => exact ih _

end

/-! ## Writes -/

/-- A write to a store. -/
inductive Store.Change where
  | save (r : Revision) (m : SiteMap)
  | importBundle (bytes : Bytes)

namespace Store

variable {s s' : Store}

/-- What a write comes to. -/
def Change.result (s : Store) : Change → Except Fault Store
  | .save r m => s.save r m
  | .importBundle bytes => do return (← s.importBundle bytes).2

/-- The statements of a write. A bundle that cannot be decoded has none. -/
def Change.statements : Change → Except Fault (List Statement)
  | .save r m => .ok (saveStatements r m)
  | .importBundle bytes => do
    return (← Bundle.decode bytes).flatMap fun e => saveStatements e.1 e.2

/-- Does a write in one transaction. -/
def perform (s : Store) (c : Change) : Except Fault Unit × Store :=
  match c.statements with
  | .ok xs => s.transact xs
  | .error f => (.error f, s)

/-- What is there after a write that came to something: the new store, or else the old one. -/
def outcome (s : Store) : Except Fault Store → Except Fault Unit × Store
  | .ok s' => (.ok (), s')
  | .error f => (.error f, s)

/-- A transaction whose statements come to a store counts, and one that fails is undone. -/
theorem transact_eq {xs : List Statement} {x : Except Fault Store}
    (h : (do return (← xs.foldlM Statement.run (.begin s)).now) = x) :
    s.transact xs = s.outcome x := by
  rw [← h, transact]
  cases hrun : xs.foldlM Statement.run (.begin s) with
  | ok t =>
    rw [run_of_ok hrun]
    rfl
  | error f =>
    obtain ⟨t, ht, hbefore⟩ := run_of_error hrun
    rw [ht]
    show (Except.error f, t.before) = _
    rw [hbefore]
    rfl

/-- A write that is done row by row, and undone if it fails, comes to what the write comes
    to. -/
theorem perform_eq (s : Store) (c : Change) : s.perform c = s.outcome (c.result s) := by
  cases c with
  | save r m =>
    apply transact_eq
    have hone := foldlM_saves (.begin s) [(r, m)]
    rw [List.flatMap_singleton, List.foldlM_cons] at hone
    rw [hone]
    show (s.save r m >>= pure) = s.save r m
    exact bind_pure _
  -- A bundle is decoded before the transaction begins.
  | importBundle bytes =>
    rw [perform, Change.statements, Change.result, importBundle]
    cases Bundle.decode bytes with
    | error f => rfl
    | ok entries =>
      apply transact_eq
      rw [foldlM_saves, ok_bind]
      show entries.foldlM (fun s e => s.save e.1 e.2) s = _
      cases entries.foldlM (fun (s : Store) e => s.save e.1 e.2) s with
      | error f => rfl
      | ok s' => rfl

/-! ## Stores that can come about -/

/-- What may happen to a store. -/
inductive Step where
  | change (c : Change)
  | remove (id : SourceId)
  | clear
  | damage (d : Damage)
  | reopen

/-- The store after a step, whether it failed or not. -/
def take (s : Store) : Step → Store
  | .change c => (s.perform c).2
  | .remove id => (s.remove id).2
  | .clear => s.clear.2
  | .damage d => s.damage d
  | .reopen => s.opened

/-- The store after some steps. -/
def run (s : Store) (steps : List Step) : Store :=
  steps.foldl take s

/-- A write that comes to a store keeps the promises of the tables. -/
theorem sound_result (h : s.tables.Sound) {c : Change} (hok : c.result s = .ok s') :
    s'.tables.Sound := by
  cases c with
  | save r m => exact sound_save h hok
  | importBundle bytes =>
    obtain ⟨⟨n, t⟩, himport, heq⟩ := bind_eq_ok.1 hok
    cases heq
    obtain ⟨entries, -, -, hsaves⟩ := importBundle_ok himport
    exact foldlM_keeps (P := fun t : Store => t.tables.Sound)
      (fun _ _ _ _ ht hsave => sound_save ht hsave) h hsaves

/-- Any step keeps the promises of the tables: failed writes are undone, and damage does not touch
    them. -/
theorem sound_take (h : s.tables.Sound) (x : Step) : (s.take x).tables.Sound := by
  cases x with
  | change c =>
    show (s.perform c).2.tables.Sound
    rw [perform_eq]
    cases hresult : c.result s with
    | error f => exact h
    | ok s' => exact sound_result h hresult
  | remove id => exact h.removeWhere _
  | clear => exact h.removeWhere _
  | damage d => exact sound_damage h d
  | reopen => exact sound_opened h

/-- The keys of the tables hold whatever happens. -/
theorem sound_run (h : s.tables.Sound) (steps : List Step) : (s.run steps).tables.Sound := by
  induction steps generalizing s with
  | nil => exact h
  | cons x rest ih => exact ih (sound_take h x)

/-! ## When writes fail -/

/-- Writes to a store fail for stated reasons only, and a write that fails leaves nothing
    behind: whatever is asked later is asked of the store as it was. -/
structure FailsCleanly (s : Store) : Prop where
  saveAccepting : s.refuses = false → ∀ r m, Fails (s.save r m) ↔ m.Repeats
  importAccepting : s.refuses = false → ∀ bytes, Fails (s.importBundle bytes) ↔
    Fails (Bundle.decode bytes)
      ∨ ∃ entries, Bundle.decode bytes = .ok entries ∧ ∃ e ∈ entries, e.2.Repeats
  saveRefusing : s.refuses = true → ∀ r m, Fails (s.save r m)
  importRefusing : s.refuses = true → ∀ bytes, Fails (s.importBundle bytes) ↔
    Fails (Bundle.decode bytes) ∨ ∃ entries, Bundle.decode bytes = .ok entries ∧ entries ≠ []
  /-- Done row by row, a write that succeeds gives the store that it is to give. -/
  committed : ∀ c s', c.result s = .ok s' → s.perform c = (.ok (), s')
  /-- One that fails, at whatever row, gives back the old store. -/
  undone : ∀ c f, c.result s = .error f → s.perform c = (.error f, s)

/-- A save fails if the store refuses entries or the map repeats itself, and for no other reason.
    -/
theorem save_fails_iff (h : s.tables.Sound) (r : Revision) (m : SiteMap) :
    Fails (s.save r m) ↔ s.refuses = true ∨ m.Repeats := by
  rw [fails_iff, save_isOk_iff h, not_and_or, SiteMap.not_distinct_iff, Bool.not_eq_false]

/-- An import fails if the bundle cannot be decoded or one of its entries cannot be saved. -/
theorem import_fails_iff (h : s.tables.Sound) (bytes : Bytes) :
    Fails (s.importBundle bytes) ↔ Fails (Bundle.decode bytes)
      ∨ ∃ entries, Bundle.decode bytes = .ok entries
        ∧ ∃ e ∈ entries, s.refuses = true ∨ e.2.Repeats := by
  rw [fails_iff, importBundle_isOk_iff h]
  cases Bundle.decode bytes with
  | error f => simp [Fails]
  | ok entries =>
    -- One entry that is not taken is enough.
    simp only [Fails, Except.ok.injEq, exists_eq_left', not_forall, not_and_or,
      SiteMap.not_distinct_iff, Bool.not_eq_false, reduceCtorEq, exists_false, false_or,
      exists_prop]

/-- A store whose tables keep their promises fails cleanly. -/
theorem failsCleanly (h : s.tables.Sound) : s.FailsCleanly := by
  refine ⟨fun haccepts r m => ?_, fun haccepts bytes => ?_, fun hrefuses r m => ?_,
    fun hrefuses bytes => ?_, fun c s' hok => ?_, fun c f herror => ?_⟩
  · rw [save_fails_iff h, haccepts]
    simp
  · rw [import_fails_iff h, haccepts]
    simp
  · exact (save_fails_iff h r m).2 (.inl hrefuses)
  · rw [import_fails_iff h, hrefuses]
    simp only [true_or, and_true, ← List.length_pos_iff_exists_mem, List.ne_nil_iff_length_pos]
  · rw [perform_eq, hok]
    rfl
  · rw [perform_eq, herror]
    rfl

/-- Whatever has happened to a store, a write to it fails for stated reasons only, and leaves
    nothing behind if it does. -/
theorem failsCleanly_run (steps : List Step) : (empty.run steps).FailsCleanly :=
  failsCleanly (sound_run Tables.sound_empty steps)

end Store
end Cache
end Coverage
