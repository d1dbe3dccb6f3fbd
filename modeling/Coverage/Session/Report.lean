/-
  Coverage.Session.Report

  The report of a session: one trace over all files in which something ran, and a snapshot
  of every file beside it.

  In the trace of a report a section names the snapshot, so it can be read after the source
  has changed or its archive is gone. A section whose snapshot could not be written names
  the source instead. A report is written at the end of what the trace file holds already.
-/

import Coverage.Session.Basic
import Coverage.Trace.Writer

namespace Coverage

open Source (Path.join)

namespace Report

/-- The name of the trace file in the directory of a report. -/
def traceName : String := "coverage.lcov"

/-- The trace of some files, each under the path given with it. -/
def trace (files : List (String × CoveredFile)) : List Char :=
  files.flatMap fun f => (Trace.section? f.1.toList f.2.ledger).getD []

/-- Where the snapshot of a file is kept. -/
def snapshotPath (directory : String) (f : CoveredFile) : String :=
  Path.join directory f.revision.id.snapshotPath

/-- The directory that the snapshot of a file is kept in. -/
def snapshotDirectory (directory : String) (f : CoveredFile) : String :=
  match f.revision.id.snapshotNames.dropLast with
  | [] => directory
  | names => Path.join directory ("/".intercalate names)

/-- Writes the snapshot of a file, and gives the path that its section is to name. -/
def snapshot (directory : String) (w : Workspace) (f : CoveredFile) : String × Workspace :=
  let made := w.makeDirectory (snapshotDirectory directory f)
  if made.1 then
    match made.2.write? (snapshotPath directory f) f.bytes with
    | some w => (snapshotPath directory f, w)
    | none => (f.revision.id.text, made.2)
  else (f.revision.id.text, made.2)

/-- Writes the snapshots of some files, and gives each file with its path. -/
def snapshots (directory : String) (w : Workspace) :
    List CoveredFile → List (String × CoveredFile) × Workspace
  | [] => ([], w)
  | f :: rest =>
    let first := snapshot directory w f
    let others := snapshots directory first.2 rest
    ((first.1, f) :: others.1, others.2)

/-- Writes a report into a directory, and gives the path of its trace. What has been written
    stays if a later part fails. -/
def write (directory : String) (w : Workspace) (files : List CoveredFile) :
    Except Fault String × Workspace :=
  let made := w.makeDirectory directory
  if made.1 then
    -- Snapshots come first, since sections name them.
    let kept := snapshots directory made.2 files
    let path := Path.join directory traceName
    match kept.2.append? path (Text.Utf8.encode (trace kept.1)) with
    | some w => (.ok path, w)
    | none => (.error .inputOutput, kept.2)
  else (.error .inputOutput, made.2)

end Report

namespace Session

/-- The trace of a session, each section under the text of its source. -/
def trace (s : Session) : List Char :=
  Report.trace (s.files.map fun t => (t.revision.id.text, t))

/-- Ends a session: its report is written if it has a directory for it. -/
def finish (s : Session) (w : Workspace) : Except Fault Unit × Workspace :=
  match s.settings.outputDir with
  | none => (.ok (), w)
  | some directory =>
    match Report.write directory w s.files with
    | (.ok _, w) => (.ok (), w)
    | (.error fault, w) => (.error fault, w)

end Session
end Coverage
