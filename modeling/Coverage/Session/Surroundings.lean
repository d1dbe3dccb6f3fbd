/-
  Coverage.Session.Surroundings

  What a session finds around it: the engine that parses scripts, the files and the
  resources. `resolve` tells which content of a source is there now.
-/

import Coverage.Source.Archive
import Coverage.Source.Digest
import Coverage.Source.Revision
import Coverage.Workspace

namespace Coverage

/-- A parser of scripts: from the source text and the name of the script. -/
abbrev Engine := String → String → Except Script.SyntaxFault Script.Program

/-- What a session finds around it. -/
structure Surroundings where
  engine : Engine
  workspace : Workspace
  archive : Archive

namespace Surroundings

/-- The revision of a source that is there now, with its bytes. -/
def content (e : Surroundings) (id : SourceId) : Except Fault (Revision × Bytes) :=
  match id with
  | .file path =>
    match e.workspace.read path with
    | .ok (bytes, nanos) => .ok (⟨id, .ofNanos nanos⟩, bytes)
    | .error fault => .error fault
  | .resource uri =>
    match e.archive.lookup? uri with
    | some bytes => .ok (⟨id, .digest (Source.Digest.ofBytes bytes)⟩, bytes)
    | none => .error (.missing uri)

/-- The revision of a source that is there now. -/
def resolve (e : Surroundings) (id : SourceId) : Except Fault Revision := do
  return (← e.content id).1

end Surroundings
end Coverage
