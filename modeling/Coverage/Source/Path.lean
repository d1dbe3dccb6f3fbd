/-
  Coverage.Source.Path

  Paths as text, compared by the components they name.

  Repeated and trailing slashes do not count, and neither does a `.` except at the very
  beginning of a path that is not rooted. Components are ordered root, `.`, `..` and then
  names, and paths by their first difference.
-/

namespace Coverage.Source

/-- One component of a path. -/
inductive Component where
  | root
  | here
  | up
  | name (s : String)
  deriving DecidableEq, Repr

namespace Component

/-- The place of a kind of component before the others. -/
def rank : Component → Nat
  | .root => 0
  | .here => 1
  | .up => 2
  | .name _ => 3

/-- The order of components: by kind, and names by their characters. -/
def compare : Component → Component → Ordering
  | .name s, .name t => Ord.compare s t
  | a, b => Ord.compare a.rank b.rank

/-- The name, if this is one. -/
def name? : Component → Option String
  | .name s => some s
  | _ => none

end Component

namespace Path

/-- The parts of a text between slashes. -/
def parts (path : String) : List String :=
  (path.toList.splitOn '/').map String.ofList

/-- Whether a path begins at the root. -/
def isRooted (path : String) : Bool :=
  path.toList.head? = some '/'

/-- The component a part names; a part that is empty or `.` names none. -/
def component? (part : String) : Option Component :=
  if part = "" ∨ part = "." then none
  else if part = ".." then some .up
  else some (.name part)

/-- The components of a path. -/
def components (path : String) : List Component :=
  let first :=
    if isRooted path then [.root]
    else if (parts path).head? = some "." then [.here]
    else []
  first ++ (parts path).filterMap component?

/-- The names among the components of a path. -/
def names (path : String) : List String :=
  (components path).filterMap Component.name?

/-- The order of two lists of components: by their first difference, a list before those it
    begins. -/
def compareComponents : List Component → List Component → Ordering
  | [], [] => .eq
  | [], _ :: _ => .lt
  | _ :: _, [] => .gt
  | a :: as, b :: bs => (a.compare b).then (compareComponents as bs)

/-- A path inside a directory. -/
def join (directory path : String) : String :=
  if isRooted path then path
  else if directory = "" then path
  else if directory.toList.getLast? = some '/' then directory ++ path
  else directory ++ "/" ++ path

end Path
end Coverage.Source
