/-
  Coverage.Workspace

  The files that scripts are read from and reports are written to: a tree with a working
  directory somewhere in it.

  A path is followed name by name, from the root if it begins with a slash and from the
  working directory if not. Whoever reads a path learns whether it leads to a file, to a
  directory, to nothing, or is blocked by a file on the way; whoever writes one gets a new
  tree, or none if the path cannot be written.

  A place is given by the names that lead to it from the root, so a file has one place
  whether a path names it from the root or from the working directory. The working directory
  and those around it are always there.

  Most files hold plain bytes. The files of a database hold stores of the cache, and no bytes
  that anyone writes make such a file.
-/

import Coverage.Cache.Store
import Coverage.Source.Path

namespace Coverage

open Source (Path.parts Path.isRooted Path.join)

/-- What a file holds. -/
inductive Content where
  | plain (bytes : Bytes)
  /-- A database, with the store in it once its tables are made. -/
  | database (store : Option Cache.Store)
  /-- A log that was left behind, from which the whole store of a database can be had. -/
  | log (store : Cache.Store)
  /-- Pages of a database that mean nothing without the rest of it. -/
  | pages
  deriving DecidableEq, Repr

namespace Content

/-- How the files of a database begin. -/
def pageMark : Bytes :=
  Text.Utf8.encode "SQLite format 3\x00".toList ++ [16, 0, 2, 2, 0, 64, 32, 32]

/-- What is read from a file. Of the files of a database this is no more than a beginning,
    which is neither a script nor a bundle. -/
def bytes : Content → Bytes
  | plain bytes => bytes
  | database _ => pageMark
  | log _ => pageMark
  | pages => pageMark

/-- Whether a database may be made in a file. A single byte counts as nothing. -/
def isBlank : Content → Bool
  | plain bytes => bytes.length ≤ 1
  | _ => false

end Content

/-- What a name in a directory stands for. -/
inductive Item where
  | directory
  /-- A file with the time of its last change, in nanoseconds since the epoch. -/
  | file (content : Content) (nanos : Int)
  deriving DecidableEq, Repr

/-- A tree of files. -/
structure Workspace where
  /-- The names that lead to the working directory. -/
  base : List String
  /-- Every directory and file but the working directory and those around it, by the names
      that lead to it. -/
  items : List (List String × Item)
  /-- The time of the next change. -/
  clock : Int

namespace Workspace

/-- A tree with nothing in it but a working directory. -/
def empty (clock : Int) (base : List String := ["work"]) : Workspace :=
  ⟨base, [], clock⟩

/-- Between two changes a microsecond passes. -/
def tick : Int := 1000

/-! ## Following a path -/

/-- Where a path leads. -/
inductive Spot where
  | directory (names : List String)
  | file (names : List String) (content : Content) (nanos : Int)
  /-- To a name that a directory does not have. -/
  | vacant (directory : List String) (name : String)
  /-- Through a directory that is not there. -/
  | missing
  /-- Through a file, or the path is not admissible. -/
  | blocked

/-- The longest name, in bytes. -/
def nameLimit : Nat := 255

/-- The longest path, in bytes. -/
def pathLimit : Nat := 4095

/-- Whether a path may be used at all. -/
def admissible (path : String) : Bool :=
  !path.toList.contains '\x00' && path.utf8ByteSize ≤ pathLimit

/-- Whether a name may be used in a directory. -/
def admissibleName (name : String) : Bool :=
  name.utf8ByteSize ≤ nameLimit

/-- The steps of a path: its parts that are not empty. -/
def steps (path : String) : List String :=
  (Path.parts path).filter (· ≠ "")

/-- The steps to the directory around what a path names: those before the last one that is
    not in place. -/
def stepsAround (path : String) : List String :=
  ((steps path).reverse.dropWhile (· = ".")).tail.reverse

/-- What is at a place. The working directory and those around it are there whatever else
    the tree holds. -/
def item? (w : Workspace) (names : List String) : Option Item :=
  if names.isPrefixOf w.base then some .directory else w.items.lookup names

/-- The directory around a directory; the root is around itself. -/
def outward (names : List String) : List String :=
  names.dropLast

/-- Follows steps from a directory. -/
def follow (w : Workspace) (names : List String) : List String → Spot
  | [] => .directory names
  | step :: rest =>
    if step = "." then w.follow names rest
    else if step = ".." then w.follow (outward names) rest
    else if admissibleName step then
      match w.item? (names ++ [step]) with
      | some .directory => w.follow (names ++ [step]) rest
      | some (.file content nanos) =>
        -- Even a step in place needs a directory, so a file ends the way.
        if rest = [] then .file (names ++ [step]) content nanos else .blocked
      | none => if rest = [] then .vacant names step else .missing
    else .blocked

/-- The directory that a path begins at: the root, or the working directory. -/
def start (base : List String) (path : String) : List String :=
  if Path.isRooted path then [] else base

/-- Where a path leads; a slash at its end is a step in place. -/
def spot (w : Workspace) (path : String) : Spot :=
  if !admissible path then .blocked
  else if path = "" then .missing
  else
    w.follow (start w.base path)
      (steps path ++ if path.toList.getLast? = some '/' then ["."] else [])

/-- Whether a path leads to a directory. -/
def hasDirectory (w : Workspace) (path : String) : Bool :=
  match w.spot path with
  | .directory _ => true
  | _ => false

/-! ## Reading -/

/-- What the file at a path holds. -/
def content? (w : Workspace) (path : String) : Option Content :=
  match w.spot path with
  | .file _ content _ => some content
  | _ => none

/-- The bytes of a file and the time of its last change. -/
def read (w : Workspace) (path : String) : Except Fault (Bytes × Int) :=
  match w.spot path with
  | .file _ content nanos => .ok (content.bytes, nanos)
  | .directory _ => .error .inputOutput
  | .blocked => .error .inputOutput
  | .vacant .. => .error (.missing path)
  | .missing => .error (.missing path)

/-! ## Writing -/

/-- The tree with an item under some names. -/
def put (w : Workspace) (names : List String) (item : Item) : Workspace :=
  { w with items := (names, item) :: w.items.filter fun i => i.1 ≠ names }

/-- The tree after a change at the current time. -/
def ticked (w : Workspace) : Workspace :=
  { w with clock := w.clock + tick }

/-- Gives a file its content and a time of change. -/
def putContent? (w : Workspace) (path : String) (content : Content) (nanos : Int) :
    Option Workspace :=
  match w.spot path with
  | .file names _ _ => some (w.put names (.file content nanos))
  | .vacant names name => some (w.put (names ++ [name]) (.file content nanos))
  | _ => none

/-- Gives a file its content, if it can be written. -/
def setContent (w : Workspace) (path : String) (content : Content) : Workspace :=
  ((w.putContent? path content w.clock).map ticked).getD w

/-- Writes a file with a given time of change. -/
def writeAt? (w : Workspace) (path : String) (bytes : Bytes) (nanos : Int) :
    Option Workspace :=
  w.putContent? path (.plain bytes) nanos

/-- Writes a file. -/
def write? (w : Workspace) (path : String) (bytes : Bytes) : Option Workspace :=
  (w.writeAt? path bytes w.clock).map ticked

/-- Writes at the end of a file, which is made if it is not there. -/
def append? (w : Workspace) (path : String) (bytes : Bytes) : Option Workspace :=
  match w.content? path with
  | some old => w.write? path (old.bytes ++ bytes)
  | none => w.write? path bytes

/-- Makes the directories on the way that are not there. If the way is blocked, those made
    before stay. -/
def makeSteps (w : Workspace) (names : List String) : List String → Bool × Workspace
  | [] => (true, w)
  | step :: rest =>
    if step = "." then w.makeSteps names rest
    else if step = ".." then w.makeSteps (outward names) rest
    else if admissibleName step then
      match w.item? (names ++ [step]) with
      | some .directory => w.makeSteps (names ++ [step]) rest
      | some (.file ..) => (false, w)
      | none => (w.put (names ++ [step]) .directory).makeSteps (names ++ [step]) rest
    else (false, w)

/-- Makes the directories around what a path names, and says whether they are there. -/
def makeAround (w : Workspace) (path : String) : Bool × Workspace :=
  if !admissible path then (false, w)
  else w.makeSteps (start w.base path) (stepsAround path)

/-- Makes a directory and those around it, and says whether it is there. A path that ends
    with a step in place gives a new directory no name, so only those around it are made. -/
def makeDirectory (w : Workspace) (path : String) : Bool × Workspace :=
  if !admissible path then (false, w)
  else if (steps path).getLast? = some "." then
    let made := w.makeAround path
    (made.1 && made.2.hasDirectory path, made.2)
  else w.makeSteps (start w.base path) (steps path)

/-- Puts a file in its place with a given time of change, and makes the directories around
    it. Nothing is written where the way is blocked. -/
def install (w : Workspace) (path : String) (bytes : Bytes) (nanos : Int) : Workspace :=
  let w := (w.makeAround path).2
  (w.writeAt? path bytes nanos).getD w

/-- Removes what a path leads to, with all that is inside it. The working directory and those
    around it stay. -/
def delete (w : Workspace) (path : String) : Workspace :=
  let drop := fun (names : List String) =>
    { w with items := w.items.filter fun i => !names.isPrefixOf i.1 }
  match w.spot path with
  | .file names _ _ => drop names
  | .directory names => if names.isPrefixOf w.base then w else drop names
  | _ => w

/-! ## Listing -/

/-- Whether one path by names comes before another in a walk that enters every directory
    where it stands among its neighbours. -/
def walkLE : List String → List String → Bool
  | [], _ => true
  | _ :: _, [] => false
  | a :: as, b :: bs => a < b || (a == b && walkLE as bs)

/-- The files inside a directory, with their paths from it, in the order of a walk. -/
def filesIn (w : Workspace) (directory : List String) : List (List String × Bytes) :=
  let inside := w.items.filterMap fun i =>
    match i.2 with
    | .file content _ =>
      if directory.isPrefixOf i.1 then some (i.1.drop directory.length, content.bytes) else none
    | .directory => none
  inside.mergeSort fun a b => walkLE a.1 b.1

/-- The files inside the directory at a path, with their paths; none if there is no such
    directory. -/
def listing (w : Workspace) (path : String) : List (String × Bytes) :=
  match w.spot path with
  | .directory names => (w.filesIn names).map fun f => (f.1.foldl Path.join path, f.2)
  | _ => []

end Workspace
end Coverage
