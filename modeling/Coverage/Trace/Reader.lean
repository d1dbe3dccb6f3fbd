/-
  Coverage.Trace.Reader

  Traces read back, those of other writers included.

  A line is trimmed and cut at its first colon into a tag and a value. A line with another
  tag, without a colon, or with a value that does not parse is ignored. A section ends at
  its end record, at the path of the next one, or with the text. Declarations of functions
  come before their counts and are joined with them by name, the last declaration of a name
  in force.
-/

import Coverage.Text.Blank
import Coverage.Text.Cut
import Coverage.Text.Decimal
import Coverage.Text.Utf8
import Coverage.Trace.Section

namespace Coverage.Trace

open Text (cutFirst? cutUpTo trim)
open Text.Decimal (unsigned? signed? bound32 bound63 bound64)

/-! ## Records -/

/-- What a line of a trace says, as far as a reader uses it. -/
inductive Entry where
  | path (text : List Char)
  | declaration (line : Nat) (name : List Char)
  | calls (hits : Nat) (name : List Char)
  | line (line hits : Nat)
  | branch (line block branch : Nat) (taken : Option Nat)
  | sectionEnd
  deriving DecidableEq, Repr

/-- A function's declaration: its line and its name. -/
def declaration? (value : List Char) : Option Entry := do
  let (line, name) ← cutFirst? ',' value
  return .declaration (← unsigned? bound32 line) name

/-- A function's calls: a count, 0 if it is no number, and the name. -/
def calls? (value : List Char) : Option Entry := do
  let (hits, name) ← cutFirst? ',' value
  return .calls ((unsigned? bound64 hits).getD 0) name

/-- A line and how often it ran, perhaps with a checksum after it. A negative count marks a
    line that is not counted. -/
def line? (value : List Char) : Option Entry :=
  match cutUpTo ',' 2 value with
  | line :: hits :: _ => do
    let line ← unsigned? bound32 line
    match ← signed? bound63 hits with
    | .ofNat n => some (.line line n)
    | .negSucc _ => none
  | _ => none

/-- A branch exit: line, block and number, and how often it was taken. A dash says that the
    decision never ran; a count that is no number is 0. -/
def branch? (value : List Char) : Option Entry :=
  match cutUpTo ',' 3 value with
  | [line, block, branch, taken] => do
    let line ← unsigned? bound32 line
    let block ← unsigned? bound32 block
    let branch ← unsigned? bound32 branch
    let count := if taken = ['-'] then none else some ((unsigned? bound64 taken).getD 0)
    some (.branch line block branch count)
  | _ => none

/-- The text of the line that ends a section. -/
def endText : List Char :=
  ['e', 'n', 'd', '_', 'o', 'f', '_', 'r', 'e', 'c', 'o', 'r', 'd']

/-- What a trimmed line says. -/
def entry? (line : List Char) : Option Entry :=
  if line = endText then some .sectionEnd
  else
    match cutFirst? ':' line with
    | none => none
    | some (tag, value) =>
      if tag = ['S', 'F'] then some (.path value)
      else if tag = ['F', 'N'] then declaration? value
      else if tag = ['F', 'N', 'D', 'A'] then calls? value
      else if tag = ['D', 'A'] then line? value
      else if tag = ['B', 'R', 'D', 'A'] then branch? value
      else none

/-! ## Sections -/

/-- What a reader holds between two lines: the sections that have ended, last first, the one
    that is open, and the functions declared in it, last first. -/
structure ReaderState where
  ended : List Section
  current : Option Section
  declared : List (List Char × Nat)

namespace ReaderState

/-- Before the first line. -/
def start : ReaderState :=
  ⟨[], none, []⟩

/-- The sections that have ended and the one that is open, last first. -/
def sections (s : ReaderState) : List Section :=
  s.current.toList ++ s.ended

/-- Changes the open section, if there is one. -/
def update (s : ReaderState) (f : Section → Section) : ReaderState :=
  { s with current := s.current.map f }

/-- Takes what one line says. -/
def take (s : ReaderState) : Entry → ReaderState
  -- A path and an end record both close the open section and forget its declarations.
  | .path p => ⟨s.sections, some (.opened (String.ofList p)), []⟩
  | .sectionEnd => ⟨s.sections, none, []⟩
  | .declaration line name => { s with declared := (name, line) :: s.declared }
  | .calls hits name =>
    s.update fun sec =>
      { sec with functions := sec.functions ++
          [⟨String.ofList name, s.declared.lookup name, hits⟩] }
  | .line line hits => s.update fun sec => { sec with lines := sec.lines ++ [⟨line, hits⟩] }
  | .branch line block branch taken =>
    s.update fun sec => { sec with branches := sec.branches ++ [⟨line, block, branch, taken⟩] }

end ReaderState

/-- The entries of a text, line by line. -/
def entries (text : List Char) : List Entry :=
  (text.splitOn '\n').filterMap fun line => entry? (trim line)

/-- The sections of a trace. -/
def read (text : List Char) : List Section :=
  ((entries text).foldl ReaderState.take .start).sections.reverse

/-- The sections of a trace in bytes, which must be well-formed text. -/
def readBytes? (bytes : Bytes) : Option (List Section) :=
  (Text.Utf8.text? bytes).map fun t => read t.toList

end Coverage.Trace
