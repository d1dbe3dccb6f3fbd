/-
  Coverage.Proofs.Session.Confined

  Snapshots stay inside the directory of a report.

  The names under which a snapshot is kept are its kind and then the parts of the identity that
  are names, in their order; parts that are empty and steps in place or upwards are left out,
  whichever of the two ways of splitting an identity is taken (`snapshotNames_eq`).  So the path
  of a snapshot has these names for its components and nothing else, and inside a directory it has
  those of the directory before them (`components_join`): it cannot lead out again, and the first
  name keeps snapshots of different kinds apart from each other and from the trace.
-/

import Coverage.Proofs.Session.Reports

namespace Coverage

/-! ## Components of paths -/

namespace Source.Path

/-- A part of a path that is a name, and neither empty nor a step. -/
def CanName (part : String) : Prop :=
  part ≠ "" ∧ part ≠ "." ∧ part ≠ ".."

instance : DecidablePred CanName := fun _ => inferInstanceAs (Decidable (_ ∧ _))

/-- A part that can name something is a component of its own. -/
theorem component?_of_canName {part : String} (h : CanName part) :
    component? part = some (.name part) := by
  rw [component?, if_neg (not_or.2 ⟨h.1, h.2.1⟩), if_neg h.2.2]

/-- What a path begins with is no name. -/
theorem names_first (path : String) :
    (if isRooted path then [Component.root]
      else if (parts path).head? = some "." then [Component.here] else []).filterMap
        Component.name? = [] := by
  split
  · rfl
  · split
    · rfl
    · rfl

/-- The names of a path are those of its parts that are names. -/
theorem names_eq (path : String) : names path = (parts path).filter CanName := by
  have hpart (part : String) : (component? part).bind Component.name?
      = Option.guard (fun part => decide (CanName part)) part := by
    by_cases h : CanName part
    · rw [component?_of_canName h, Option.guard, if_pos (decide_eq_true h)]
      rfl
    · rw [Option.guard, if_neg (by simpa using h)]
      unfold component?
      split
      · rfl
      · rename_i hblank
        split
        · rfl
        · rename_i hup
          exact absurd ⟨(not_or.1 hblank).1, (not_or.1 hblank).2, hup⟩ h
  rw [names, components, List.filterMap_append, names_first, List.nil_append,
    List.filterMap_filterMap, funext hpart, List.filterMap_eq_filter]

theorem parts_ne_nil (path : String) : parts path ≠ [] := by
  simp [parts, List.splitOn_ne_nil]

/-- How a path begins is decided before its first slash. -/
theorem head?_parts_slash (front back : List Char) :
    (parts (String.ofList (front ++ '/' :: back))).head? = (parts (String.ofList front)).head? := by
  rw [parts_slash, List.head?_append_of_ne_nil _ (parts_ne_nil _)]

theorem filterMap_parts_nil : (parts (String.ofList [])).filterMap component? = [] := by
  decide

/-- What follows a slash adds its components to those before it. -/
theorem components_slash (front back : List Char) :
    components (String.ofList (front ++ '/' :: back))
      = components (String.ofList (front ++ ['/']))
        ++ (parts (String.ofList back)).filterMap component? := by
  have hrooted : isRooted (String.ofList (front ++ '/' :: back))
      = isRooted (String.ofList (front ++ ['/'])) := by
    cases front <;> simp [isRooted]
  rw [components, components, hrooted, head?_parts_slash, head?_parts_slash, parts_slash,
    parts_slash, List.filterMap_append, List.filterMap_append, filterMap_parts_nil,
    List.append_nil, List.append_assoc]

/-- A slash at the end of a path adds nothing, but for the root. -/
theorem components_closed {front : List Char} (h : front ≠ []) :
    components (String.ofList (front ++ ['/'])) = components (String.ofList front) := by
  have hrooted : isRooted (String.ofList (front ++ ['/'])) = isRooted (String.ofList front) := by
    cases front with
    | nil => exact absurd rfl h
    | cons c rest => simp [isRooted]
  rw [components, components, hrooted, head?_parts_slash, parts_slash, List.filterMap_append,
    filterMap_parts_nil, List.append_nil]

/-- A path inside a directory has the components of the directory and then its own, if it does
    not begin with a step in place. -/
theorem components_join {path : String} (hrooted : isRooted path = false)
    (hhead : (parts path).head? ≠ some ".") (directory : String) :
    components (join directory path) = components directory ++ components path := by
  have hpath : components path = (parts path).filterMap component? := by
    rw [components, hrooted, if_neg Bool.false_ne_true, if_neg hhead, List.nil_append]
  rcases join_cases hrooted directory with ⟨rfl, hjoin⟩ | ⟨front, hjoin, rfl | ⟨rfl, hne⟩⟩
  · rw [hjoin]
    rfl
  · rw [hjoin, components_slash, String.ofList_toList, hpath]
  · rw [hjoin, components_slash, components_closed hne, String.ofList_toList, hpath]

end Source.Path

namespace SourceId

open Source (Component Path.CanName Path.components Path.isRooted Path.join Path.names Path.parts)

/-! ## The names of a snapshot -/

/-- What snapshots are kept apart by. -/
inductive Kind where
  | resource
  | rootedFile
  | otherFile
  deriving DecidableEq

/-- The kind of an identity. -/
def kind : SourceId → Kind
  | .resource _ => .resource
  | .file path => if Path.isRooted path then .rootedFile else .otherFile

/-- The directory in which the snapshots of a kind are kept. -/
def Kind.directory : Kind → String
  | .resource => "resource"
  | .rootedFile => "file"
  | .otherFile => "relative"

theorem Kind.directory_inj {k l : Kind} (h : k.directory = l.directory) : k = l := by
  cases k <;> cases l <;> simp [directory] at h ⊢

/-- The part of an identity's text that tells where it lies: all of it but the scheme of a URI. -/
def route : SourceId → String
  | .resource uri => String.ofList ((Text.dropBeginning? scheme uri.toList).getD uri.toList)
  | .file path => path

/-- The names of a snapshot are its kind and then the names on its route. -/
theorem snapshotNames_eq (id : SourceId) :
    id.snapshotNames = id.kind.directory :: (Path.parts id.route).filter Path.CanName := by
  cases id with
  | resource uri =>
    rw [snapshotNames, resourceNames, List.cons.injEq]
    refine ⟨rfl, List.filter_congr fun part _ => ?_⟩
    rw [Bool.eq_iff_iff, decide_eq_true_iff]
    simp [Path.CanName, and_assoc]
  | file path =>
    rw [snapshotNames, Source.Path.names_eq, kind]
    split <;> rfl

/-- The path of a snapshot does not begin with a dot. -/
theorem head?_parts_snapshotPath (id : SourceId) :
    (Path.parts id.snapshotPath).head? ≠ some "." := by
  rw [parts_snapshotPath]
  intro h
  exact (mem_snapshotNames (List.mem_of_head? h)).2.2.1 rfl

theorem components_snapshotPath (id : SourceId) :
    Path.components id.snapshotPath = id.snapshotNames.map .name := by
  rw [Path.components, id.isRooted_snapshotPath, if_neg Bool.false_ne_true,
    if_neg id.head?_parts_snapshotPath, List.nil_append, parts_snapshotPath,
    ← List.filterMap_eq_map]
  exact List.filterMap_congr fun name h => Source.Path.component?_of_canName (mem_snapshotNames h).2

end SourceId

namespace Report

open Source (Component Path.CanName Path.components Path.isRooted Path.join Path.parts)
open Workspace (placeOf)

variable {directory : String} {base : List String} {w : Workspace} {f : CoveredFile}
  {names : List String}

/-! ## Below the directory of a report -/

/-- A place is inside a directory, and not that of the directory itself. -/
def Below (base : List String) (directory : String) (names : List String) : Prop :=
  ∃ name rest, names = placeOf base directory ++ name :: rest

/-- The place of a snapshot is below that of the directory. -/
theorem below_snapshotPath (base : List String) (directory : String) (f : CoveredFile) :
    Below base directory (placeOf base (snapshotPath directory f)) :=
  ⟨_, _, by rw [placeOf_snapshotPath, SourceId.snapshotNames_eq]⟩

/-- What is not below a directory, and the trace in it, is no place of a snapshot. -/
theorem ne_snapshotPath (h : ¬ Below base directory names ∨ names = tracePlace base directory)
    (f : CoveredFile) : names ≠ placeOf base (snapshotPath directory f) := by
  rcases h with houtside | htrace
  · rintro rfl
    exact houtside (below_snapshotPath base directory f)
  · rw [htrace]
    exact tracePlace_ne_snapshot base directory f

/-- Snapshots change no file but those below the directory of the report, and not the trace. -/
theorem fileAt?_snapshots (h : ¬ Below w.base directory names ∨ names = tracePlace w.base directory)
    (files : List CoveredFile) :
    (snapshots directory w files).2.fileAt? names = w.fileAt? names := by
  induction files generalizing w with
  | nil => rfl
  | cons f rest ih =>
    rw [← base_snapshot directory w f] at h
    rw [snapshots]
    refine (ih h).trans (fileAt?_snapshot_of_ne ?_)
    rw [base_snapshot] at h
    exact ne_snapshotPath h f

/-! ## Every identity -/

/-- What keeps the snapshot of an identity inside the directory of a report: its path is relative
    and has for components the directory of its kind and the names on the route of the identity,
    which follow those of the directory. -/
structure Confined (id : SourceId) : Prop where
  relative : Path.isRooted id.snapshotPath = false
  components : Path.components id.snapshotPath
    = .name id.kind.directory :: ((Path.parts id.route).filter Path.CanName).map .name
  names : ∀ name ∈ (Path.parts id.route).filter Path.CanName,
    name ≠ "" ∧ '/' ∉ name.toList ∧ name ≠ "." ∧ name ≠ ".."
  inside : ∀ directory, Path.components (Path.join directory id.snapshotPath)
    = Path.components directory ++ Path.components id.snapshotPath
  notTrace : ∀ directory, Path.components (Path.join directory id.snapshotPath)
    ≠ Path.components (Path.join directory traceName)
  kindsApart : ∀ other : SourceId, other.kind ≠ id.kind →
    Path.components other.snapshotPath ≠ Path.components id.snapshotPath

/-- The trace is directly in the directory. -/
theorem components_traceName (directory : String) :
    Path.components (Path.join directory traceName)
      = Path.components directory ++ [.name traceName] := by
  have htrace : Path.components traceName = [.name traceName] := by decide
  rw [Source.Path.components_join (by decide) (by decide), htrace]

/-- No directory of a kind goes by the name of the trace. -/
theorem directory_ne_traceName (k : SourceId.Kind) : k.directory ≠ traceName := by
  cases k <;> decide

/-- The names of a snapshot are confined, whatever the identity is. -/
theorem confined (id : SourceId) : Confined id where
  relative := id.isRooted_snapshotPath
  components := by
    rw [id.components_snapshotPath, id.snapshotNames_eq, List.map_cons]
  names := fun name h => by
    obtain ⟨hpart, hname⟩ := List.mem_filter.1 h
    obtain ⟨hempty, hhere, hup⟩ := of_decide_eq_true hname
    exact ⟨hempty, Source.Path.slash_not_mem_of_mem_parts hpart, hhere, hup⟩
  inside := Source.Path.components_join id.isRooted_snapshotPath id.head?_parts_snapshotPath
  notTrace := fun directory heq => by
    rw [Source.Path.components_join id.isRooted_snapshotPath id.head?_parts_snapshotPath,
      components_traceName, id.components_snapshotPath, id.snapshotNames_eq] at heq
    have hfirst := (List.cons.inj (List.append_cancel_left heq)).1
    exact directory_ne_traceName _ (Component.name.inj hfirst)
  kindsApart := fun other hkind heq => by
    -- The first component alone is that of the kind.
    rw [other.components_snapshotPath, id.components_snapshotPath, other.snapshotNames_eq,
      id.snapshotNames_eq, List.map_cons, List.map_cons, List.cons.injEq] at heq
    exact hkind (SourceId.Kind.directory_inj (Component.name.inj heq.1))

/-- Whatever its text is, the snapshot of an identity is kept inside the directory of a report,
    apart from the trace and from the snapshots of other kinds; and so the snapshots of any files
    leave all files alone that are not below this directory, and the trace. -/
theorem snapshots_confined :
    (∀ id : SourceId, Confined id)
      ∧ ∀ (directory : String) (w : Workspace) (files : List CoveredFile) (names : List String),
        ¬ Below w.base directory names ∨ names = tracePlace w.base directory →
        (snapshots directory w files).2.fileAt? names = w.fileAt? names :=
  ⟨confined, fun _ _ files _ h => fileAt?_snapshots h files⟩

/-- A resource whose URI climbs out of its archive. -/
def climbing : SourceId :=
  .resource "resource:///../..//etc/./passwd"

theorem snapshots_confined_climbing :
    Path.components (Path.join "/out" climbing.snapshotPath)
        = [.root, .name "out", .name "resource", .name "etc", .name "passwd"]
      ∧ ¬ Below opened.base "/out" ["etc", "passwd"]
      ∧ (snapshots "/out" opened [Trace.oneCall]).2.fileAt? ["etc", "passwd"]
        = opened.fileAt? ["etc", "passwd"] := by
  obtain ⟨hconfined, hkept⟩ := snapshots_confined
  have houtside : ¬ Below opened.base "/out" ["etc", "passwd"] := by
    rintro ⟨name, rest, h⟩
    have hout : placeOf opened.base "/out" = ["out"] := by decide
    rw [hout] at h
    exact absurd (List.cons.inj h).1 (by decide)
  refine ⟨?_, houtside, hkept "/out" opened [Trace.oneCall] _ (.inl houtside)⟩
  rw [(hconfined climbing).inside, (hconfined climbing).components]
  decide

end Report
end Coverage
