/-
  Coverage.Proofs.Session.Reports

  Reports written one after another into one directory.

  A report adds its text to the trace file and changes nothing else of it, since the snapshots
  have places of their own (`write_eq_ok`).  Each text begins with the path of a section and
  ends with a line, so the trace file reads as what it held before and then every report in
  turn (`read_appended`).
-/

import Coverage.Proofs.Trace.Appended
import Coverage.Proofs.Trace.RoundTrip
import Coverage.Proofs.Workspace.Places
import Coverage.Session.Report

namespace Coverage

open Source (Path.join Path.isRooted Path.parts)

/-! ## The place of a snapshot -/

namespace SourceId

/-- The names of a snapshot hold no slash, and none of them stays or goes up. -/
theorem mem_snapshotNames {id : SourceId} {name : String} (h : name ∈ id.snapshotNames) :
    '/' ∉ name.toList ∧ name ≠ "" ∧ name ≠ "." ∧ name ≠ ".." := by
  cases id with
  | resource uri =>
    rcases List.mem_cons.1 h with rfl | h
    · decide
    · obtain ⟨hpart, hname⟩ := List.mem_filter.1 h
      simp only [Bool.and_eq_true, decide_eq_true_eq] at hname
      exact ⟨Source.Path.slash_not_mem_of_mem_parts hpart, hname.1.1, hname.1.2, hname.2⟩
  | file path =>
    rcases List.mem_cons.1 h with rfl | h
    · split
      · decide
      · decide
    · obtain ⟨hpart, hname⟩ := Source.Path.mem_parts_of_mem_names h
      exact ⟨Source.Path.slash_not_mem_of_mem_parts hpart, hname⟩

/-- A snapshot has at least the name of its kind. -/
theorem snapshotNames_ne_nil (id : SourceId) : id.snapshotNames ≠ [] := by
  cases id with
  | resource uri => exact List.cons_ne_nil _ _
  | file path => exact List.cons_ne_nil _ _

/-- The names of a snapshot are the parts of its path. -/
theorem parts_snapshotPath (id : SourceId) : Path.parts id.snapshotPath = id.snapshotNames :=
  Source.Path.parts_intercalate (fun _ h => (mem_snapshotNames h).1) id.snapshotNames_ne_nil

/-- So its path is inside whatever directory it is joined to. -/
theorem isRooted_snapshotPath (id : SourceId) : Path.isRooted id.snapshotPath = false := by
  -- A path from the root begins with an empty part, and a snapshot has none.
  by_contra hrooted
  obtain ⟨rest, hpath⟩ : ∃ rest, id.snapshotPath.toList = '/' :: rest :=
    List.head?_eq_some_iff.1 (by simpa [Path.isRooted] using hrooted)
  have hempty : "" ∈ Path.parts id.snapshotPath := by
    rw [Path.parts, hpath]
    have hsplit := List.splitOn_append_cons_self (a := '/') [] rest
    rw [List.nil_append, List.splitOn_nil, List.singleton_append] at hsplit
    rw [hsplit]
    exact List.mem_cons_self
  rw [id.parts_snapshotPath] at hempty
  exact (mem_snapshotNames hempty).2.1 rfl

end SourceId

namespace Report

open Workspace (placeOf place steps)
open Trace (EndsLine OpensSection)

/-- The place of the trace file in the directory of a report. -/
def tracePlace (base : List String) (directory : String) : List String :=
  placeOf base (Path.join directory traceName)

/-- What the trace file in the directory of a report holds; nothing if it is not there. -/
def traceBytes (directory : String) (w : Workspace) : Bytes :=
  w.bytesAt (tracePlace w.base directory)

/-- The text that a report adds to the trace file: a section names its snapshot if that could
    be written. -/
def text (directory : String) (w : Workspace) (files : List CoveredFile) : List Char :=
  trace (snapshots directory (w.makeDirectory directory).2 files).1

variable {directory path : String} {base : List String} {w w' : Workspace}
  {files : List CoveredFile}

/-- Snapshots are kept below the directory of a report, under the names of their identities. -/
theorem placeOf_snapshotPath (base : List String) (directory : String) (f : CoveredFile) :
    placeOf base (snapshotPath directory f)
      = placeOf base directory ++ f.revision.id.snapshotNames := by
  have hsteps : steps f.revision.id.snapshotPath = f.revision.id.snapshotNames :=
    Workspace.steps_intercalate
      (fun name h => ⟨(SourceId.mem_snapshotNames h).1, (SourceId.mem_snapshotNames h).2.1⟩)
      f.revision.id.snapshotNames_ne_nil
  rw [snapshotPath, Workspace.placeOf_join f.revision.id.isRooted_snapshotPath, hsteps,
    Workspace.place_of_names fun name h => (SourceId.mem_snapshotNames h).2.2]

/-- The trace of a report is directly in its directory. -/
theorem tracePlace_eq (base : List String) (directory : String) :
    tracePlace base directory = placeOf base directory ++ [traceName] := by
  have hsteps : steps traceName = [traceName] := by decide
  rw [tracePlace, Workspace.placeOf_join (by decide), hsteps,
    Workspace.place_of_names (by decide)]

/-- No snapshot is kept where the trace is. -/
theorem tracePlace_ne_snapshot (base : List String) (directory : String) (f : CoveredFile) :
    tracePlace base directory ≠ placeOf base (snapshotPath directory f) := by
  rw [tracePlace_eq, placeOf_snapshotPath]
  intro heq
  have hnames : [traceName] = f.revision.id.snapshotNames := List.append_cancel_left heq
  cases hid : f.revision.id with
  | resource uri =>
    rw [hid, SourceId.snapshotNames, List.cons.injEq] at hnames
    exact absurd hnames.1 (by decide)
  | file source =>
    rw [hid, SourceId.snapshotNames, List.cons.injEq] at hnames
    revert hnames
    split
    · exact fun h => absurd h.1 (by decide)
    · exact fun h => absurd h.1 (by decide)

/-! ## What a report changes -/

@[simp] theorem base_snapshot (directory : String) (w : Workspace) (f : CoveredFile) :
    (snapshot directory w f).2.base = w.base := by
  have hmade := w.base_makeDirectory (snapshotDirectory directory f)
  rw [snapshot]
  split
  · split
    · exact (Workspace.base_write? ‹_›).trans hmade
    · exact hmade
  · exact hmade

@[simp] theorem base_snapshots (directory : String) (w : Workspace) (files : List CoveredFile) :
    (snapshots directory w files).2.base = w.base := by
  induction files generalizing w with
  | nil => rfl
  | cons f rest ih => exact (ih _).trans (base_snapshot directory w f)

/-- A snapshot changes the file at its own place and no other. -/
theorem fileAt?_snapshot_of_ne {names : List String} {f : CoveredFile} {w : Workspace}
    (h : names ≠ placeOf w.base (snapshotPath directory f)) :
    (snapshot directory w f).2.fileAt? names = w.fileAt? names := by
  have hmade := w.fileAt?_makeDirectory (snapshotDirectory directory f) names
  rw [snapshot]
  split
  · split
    · rename_i written hwritten
      obtain ⟨-, rfl⟩ := Workspace.write?_eq_some hwritten
      rw [← w.base_makeDirectory (snapshotDirectory directory f)] at h
      rw [Workspace.fileAt?_ticked, Workspace.fileAt?_put_of_ne _ _ h, hmade]
    · exact hmade
  · exact hmade

/-- A snapshot changes no bytes but those at its own place. -/
theorem bytesAt_snapshot_of_ne {names : List String} {f : CoveredFile} {w : Workspace}
    (h : names ≠ placeOf w.base (snapshotPath directory f)) :
    (snapshot directory w f).2.bytesAt names = w.bytesAt names := by
  rw [Workspace.bytesAt, Workspace.bytesAt, fileAt?_snapshot_of_ne h]

/-- It does not change the trace. -/
theorem traceBytes_snapshot (directory : String) (w : Workspace) (f : CoveredFile) :
    traceBytes directory (snapshot directory w f).2 = traceBytes directory w := by
  rw [traceBytes, base_snapshot]
  exact bytesAt_snapshot_of_ne (tracePlace_ne_snapshot w.base directory f)

/-- Nor do all the snapshots of a report. -/
theorem traceBytes_snapshots (directory : String) (w : Workspace) (files : List CoveredFile) :
    traceBytes directory (snapshots directory w files).2 = traceBytes directory w := by
  induction files generalizing w with
  | nil => rfl
  | cons f rest ih =>
    rw [snapshots]
    exact (ih _).trans (traceBytes_snapshot directory w f)

/-- A report that is written adds its text to the trace file. -/
theorem write_eq_ok (h : write directory w files = (.ok path, w')) :
    path = Path.join directory traceName
      ∧ traceBytes directory w'
        = traceBytes directory w ++ Text.Utf8.encode (text directory w files)
      ∧ ∃ nanos, w'.read path = .ok (traceBytes directory w', nanos) := by
  dsimp only [write] at h
  split at h
  · split at h
    · rename_i written happend
      cases h
      obtain ⟨hw, hread⟩ := Workspace.append?_eq_some happend
      have hbase : (snapshots directory (w.makeDirectory directory).2 files).2.base = w.base := by
        rw [base_snapshots, Workspace.base_makeDirectory]
      -- Neither the directory nor the snapshots have changed the trace file.
      have hold : (snapshots directory (w.makeDirectory directory).2 files).2.bytesAt
          (tracePlace w.base directory) = traceBytes directory w := by
        have hmade := w.fileAt?_makeDirectory directory (tracePlace w.base directory)
        have hkept := traceBytes_snapshots directory (w.makeDirectory directory).2 files
        rw [traceBytes, hbase, traceBytes, Workspace.base_makeDirectory] at hkept
        rw [hkept, Workspace.bytesAt, hmade]
        rfl
      have hnew := Workspace.bytesAt_of_read hread
      rw [hbase] at hread
      rw [tracePlace] at hold
      rw [hbase, hold] at hnew
      rw [hold] at hread
      exact ⟨rfl, hnew, _, (hnew ▸ hread : _)⟩
    · cases h
  · cases h

/-! ## The text of a report -/

/-- Records that are written end in whole lines. -/
theorem endsLine_write (rs : List Trace.Record) : EndsLine (Trace.write rs) := by
  induction rs with
  | nil => exact .inl rfl
  | cons r rest ih =>
    have hline : EndsLine (r.text ++ ['\n']) := .inr List.getLast?_concat
    exact hline.append ih

/-- The records of a file begin with a path. -/
theorem opensSection_records (source : List Char) (l : Ledger) :
    OpensSection (Trace.write (Trace.records source l)) :=
  .inr ⟨_, rfl⟩

/-- The section of a file ends in a whole line and opens with a path, if there is one. -/
theorem lawful_section (source : List Char) (l : Ledger) :
    EndsLine ((Trace.section? source l).getD [])
      ∧ OpensSection ((Trace.section? source l).getD []) := by
  unfold Trace.section?
  split
  · exact ⟨endsLine_write _, opensSection_records source l⟩
  · exact ⟨.inl rfl, .inl rfl⟩

/-- A trace ends its last line and begins with a section. -/
theorem lawful_trace (files : List (String × CoveredFile)) :
    EndsLine (trace files) ∧ OpensSection (trace files) := by
  induction files with
  | nil => exact ⟨.inl rfl, .inl rfl⟩
  | cons f rest ih =>
    obtain ⟨hends, hopens⟩ := lawful_section f.1.toList f.2.ledger
    exact ⟨hends.append ih.1, hopens.append ih.2⟩

/-! ## Reports in turn -/

/-- Reports that were written into one directory one after another, with the texts they
    added.  In between anything may happen but to the trace file. -/
inductive Written (directory : String) : Workspace → List (List Char) → Workspace → Prop
  | nothing (w : Workspace) : Written directory w [] w
  | meanwhile {w w₁ w₂ : Workspace} {texts : List (List Char)}
      (kept : traceBytes directory w₁ = traceBytes directory w)
      (rest : Written directory w₁ texts w₂) : Written directory w texts w₂
  | report {w w₁ w₂ : Workspace} {files : List CoveredFile} {path : String}
      {texts : List (List Char)} (wrote : write directory w files = (.ok path, w₁))
      (rest : Written directory w₁ texts w₂) :
      Written directory w (text directory w files :: texts) w₂

namespace Written

variable {texts : List (List Char)}

/-- So do the texts of all reports. -/
theorem lawful (h : Written directory w texts w') :
    ∀ t ∈ texts, EndsLine t ∧ OpensSection t := by
  induction h with
  | nothing w => exact fun t ht => absurd ht List.not_mem_nil
  | meanwhile kept rest ih => exact ih
  | report wrote rest ih => exact List.forall_mem_cons.2 ⟨lawful_trace _, ih⟩

/-- Each report is added to all that was there before. -/
theorem traceBytes_eq (h : Written directory w texts w') :
    traceBytes directory w' = traceBytes directory w ++ texts.flatMap Text.Utf8.encode := by
  induction h with
  | nothing w => exact (List.append_nil _).symm
  | meanwhile kept rest ih => rw [ih, kept]
  | report wrote rest ih =>
    rw [ih, (write_eq_ok wrote).2.1, List.flatMap_cons, List.append_assoc]

end Written

/-- Texts that each begin with a section and end their last line, read after a text that
    ended its last line. -/
theorem readBytes?_texts {old : Bytes} {s : String} (hold : Text.Utf8.text? old = some s)
    (hends : EndsLine s.toList) {texts : List (List Char)}
    (htexts : ∀ t ∈ texts, EndsLine t ∧ OpensSection t) :
    Trace.readBytes? (old ++ texts.flatMap Text.Utf8.encode)
      = some (Trace.read s.toList ++ texts.flatMap Trace.read) := by
  induction texts generalizing old s with
  | nil => rw [List.flatMap_nil, List.flatMap_nil, List.append_nil, List.append_nil,
      Trace.readBytes?, hold, Option.map_some]
  | cons t rest ih =>
    obtain ⟨⟨htends, htopens⟩, hrest⟩ := List.forall_mem_cons.1 htexts
    have hboth : Text.Utf8.text? (old ++ Text.Utf8.encode t) = some (s ++ String.ofList t) :=
      Text.Utf8.text?_append hold (Text.Utf8.text?_encode t)
    have hlist : (s ++ String.ofList t).toList = s.toList ++ t := by simp
    rw [List.flatMap_cons, List.flatMap_cons, ← List.append_assoc,
      ih hboth (hlist ▸ hends.append htends) hrest, hlist, Trace.read_append hends htopens,
      List.append_assoc]

/-- Traces appended to one another read as one after the other, with the sum of their totals;
    a report that is written is appended to the trace file, where it can be read; and so the
    trace file reads as what it held before and then every report in turn. -/
theorem read_appended :
    (∀ (front back : Bytes) (s t : String), Text.Utf8.text? front = some s →
        Text.Utf8.text? back = some t → EndsLine s.toList → OpensSection t.toList →
        ∃ as bs, Trace.readBytes? front = some as ∧ Trace.readBytes? back = some bs
          ∧ Trace.readBytes? (front ++ back) = some (as ++ bs)
          ∧ Trace.total (as ++ bs) = Trace.total as + Trace.total bs)
      ∧ (∀ (directory path : String) (w w' : Workspace) (files : List CoveredFile),
        write directory w files = (.ok path, w') →
        traceBytes directory w'
            = traceBytes directory w ++ Text.Utf8.encode (text directory w files)
          ∧ (∃ nanos, w'.read path = .ok (traceBytes directory w', nanos))
          ∧ ∀ bytes nanos, w.read path = .ok (bytes, nanos) → bytes = traceBytes directory w)
      ∧ ∀ (directory : String) (w w' : Workspace) (texts : List (List Char)) (s : String),
        Written directory w texts w' → Text.Utf8.text? (traceBytes directory w) = some s →
        EndsLine s.toList →
        traceBytes directory w <+: traceBytes directory w'
          ∧ Trace.readBytes? (traceBytes directory w')
            = some (Trace.read s.toList ++ texts.flatMap Trace.read) := by
  refine ⟨?_, ?_, ?_⟩
  · intro front back s t hs ht hends hopens
    refine ⟨Trace.read s.toList, Trace.read t.toList, ?_, ?_, ?_, Trace.total_append _ _⟩
    · rw [Trace.readBytes?, hs, Option.map_some]
    · rw [Trace.readBytes?, ht, Option.map_some]
    · rw [Trace.readBytes?, Text.Utf8.text?_append hs ht, Option.map_some, String.toList_append,
        Trace.read_append hends hopens]
  · intro directory path w w' files hwrite
    obtain ⟨rfl, hbytes, hread⟩ := write_eq_ok hwrite
    exact ⟨hbytes, hread, fun bytes nanos hold => (Workspace.bytesAt_of_read hold).symm⟩
  · intro directory w w' texts s hwritten hold hends
    rw [hwritten.traceBytes_eq]
    exact ⟨List.prefix_append _ _, readBytes?_texts hold hends hwritten.lawful⟩

/-- A trace with a declaration before its first section, which is left open. -/
def openTrace : String := "FN:1,f\nSF:old\nDA:1,2\n"

/-- A directory for reports that holds this trace, and is not in the working directory. -/
def opened : Workspace where
  base := ["home", "work"]
  items := [(["out"], .directory),
    (["out", "coverage.lcov"], .file (.plain (Text.Utf8.ofString openTrace)) 0)]
  clock := 0

/-- The files after one report, into the directory as it is named from the root. -/
def once : Workspace :=
  (write "/out" opened [Trace.oneCall]).2

/-- The files after another one, in which the file comes twice. -/
def twice : Workspace :=
  (write "/out" once [Trace.oneCall, Trace.oneCall]).2

theorem write_opened : write "/out" opened [Trace.oneCall] = (.ok "/out/coverage.lcov", once) :=
  Prod.ext (by rfl) rfl

theorem write_once :
    write "/out" once [Trace.oneCall, Trace.oneCall] = (.ok "/out/coverage.lcov", twice) :=
  Prod.ext (by rfl) rfl

theorem read_appended_twice :
    (∃ as bs, Trace.readBytes? (Text.Utf8.ofString openTrace) = some as
        ∧ Trace.readBytes? (Text.Utf8.ofString "SF:new\nFNDA:2,f\n") = some bs
        ∧ Trace.readBytes? (Text.Utf8.ofString openTrace
          ++ Text.Utf8.ofString "SF:new\nFNDA:2,f\n") = some (as ++ bs)
        ∧ Trace.total (as ++ bs) = Trace.total as + Trace.total bs)
      ∧ (∃ nanos, once.read "/out/coverage.lcov" = .ok (traceBytes "/out" once, nanos))
      ∧ traceBytes "/out" opened <+: traceBytes "/out" twice
      ∧ Trace.readBytes? (traceBytes "/out" twice)
        = some (Trace.read openTrace.toList
          ++ [text "/out" opened [Trace.oneCall],
            text "/out" once [Trace.oneCall, Trace.oneCall]].flatMap Trace.read) := by
  obtain ⟨happended, hreport, hreports⟩ := read_appended
  have hends : EndsLine openTrace.toList := .inr (by decide)
  refine ⟨?_, (hreport "/out" _ opened once _ write_opened).2.1, ?_⟩
  · exact happended _ _ openTrace _ (Text.Utf8.text?_ofString _) (Text.Utf8.text?_ofString _)
      hends (.inr ⟨_, rfl⟩)
  · exact hreports "/out" opened twice _ openTrace
      (.report write_opened (.report write_once (.nothing twice)))
      (Text.Utf8.text?_ofString openTrace) hends

end Report
end Coverage
