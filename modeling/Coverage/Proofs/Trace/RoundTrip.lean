/-
  Coverage.Proofs.Trace.RoundTrip

  The trace of a session is read back as what was written.

  A reader takes the records of one section from any state without an open section to the
  one in which that section has ended (`foldl_records`): the declarations are remembered,
  every count finds the declaration of its function, and the end record forgets them.  So
  the sections of a trace are those of the files in which something ran, in their order, and
  the totals that a reader works out are the ones the trace states.
-/

import Coverage.Proofs.Hits.Inference
import Coverage.Proofs.Keyed
import Coverage.Proofs.Trace.Records
import Coverage.Session.Report
import Mathlib.Data.List.Nodup

namespace Coverage.Trace

open Text (dropBeginning? trim splitOn_lines)
open Text.Decimal (ofNat digits? bound32 bound63 bound64)

/-! ## The section of a ledger -/

/-- What a reader is to make of the section of a ledger. -/
def Section.ofLedger (path : String) (l : Ledger) : Section where
  path := path
  functions := l.functionHits.map fun f => ⟨f.1.key, some f.1.line, f.2⟩
  branches := l.map.exits.map fun e => ⟨e.line, 0, e.index, timesTaken (l.exitState e)⟩
  lines := l.map.lines.map fun line => ⟨line, l.lineHits line⟩

/-- A ledger that can be written so that it is read back: its keys keep to their lines and
    differ from each other, and its numbers are in range. -/
structure Legible (l : Ledger) : Prop where
  keys : ∀ f ∈ l.map.functions, Plain f.key.toList
  distinct : (l.map.functions.map FunctionSpan.key).Nodup
  functions : ∀ f ∈ l.map.functions, f.line < bound32
  exits : ∀ e ∈ l.map.exits, e.line < bound32 ∧ e.index < bound32
  lines : ∀ line ∈ l.map.lines, line < bound32
  lineCounts : ∀ line, l.lineHits line ≤ ExitState.countLimit
  exitCounts : ∀ exit, l.counters.exits.count exit ≤ ExitState.countLimit
  callCounts : ∀ slot, l.counters.functionHits slot ≤ ExitState.countLimit

variable {l : Ledger}

/-- An exit that was taken was taken at least once, and no oftener than something was
    counted. -/
theorem exitState_taken (h : Legible l) {e : BranchExit} {n : Nat}
    (htaken : l.exitState e = .taken n) : 0 < n ∧ n ≤ ExitState.countLimit := by
  have hcomes : l.counters.ComesTo e (l.exitState e) := l.counters.comesTo_exitState e
  refine ⟨Counters.pos_of_taken htaken, ?_⟩
  rw [htaken] at hcomes
  cases hcomes with
  | reported _ => exact h.exitCounts _
  | first _ _ _ _ _ => exact h.lineCounts _

/-- The calls that are read are those of the functions of the map, each from its slot. -/
theorem mem_functionHits {f : FunctionSpan × Nat} (h : f ∈ l.functionHits) :
    f.1 ∈ l.map.functions ∧ ∃ slot, f.2 = l.counters.functionHits slot := by
  obtain ⟨⟨g, slot⟩, hg, rfl⟩ := List.mem_map.1 h
  have hmem : g ∈ l.map.functions := List.fst_mem_of_mem_zipIdx hg
  exact ⟨hmem, slot, rfl⟩

/-- All records of a legible ledger can be read back. -/
theorem legible_records {path : List Char} (hpath : Plain path) (h : Legible l) :
    ∀ r ∈ records path l, r.Legible := by
  have hlimit : ExitState.countLimit < bound63 ∧ ExitState.countLimit < bound64 := by decide
  intro r hr
  simp only [records, List.mem_append, List.mem_cons, List.not_mem_nil, or_false] at hr
  -- One case for each record of a section, in the order in which they are written.
  rcases hr with ((((((((rfl | hr) | hr) | rfl | rfl) | hr) | rfl | rfl) | hr) | rfl | rfl) | rfl)
  · exact hpath
  · obtain ⟨f, hf, rfl⟩ := List.mem_map.1 hr
    exact ⟨h.functions f hf, h.keys f hf⟩
  · obtain ⟨f, hf, rfl⟩ := List.mem_map.1 hr
    obtain ⟨hmem, slot, hslot⟩ := mem_functionHits hf
    have hcount := h.callCounts slot
    exact ⟨by omega, h.keys f.1 hmem⟩
  · show ['F', 'N'] ∈ tags
    decide
  · show ['F', 'N'] ∈ tags
    decide
  · obtain ⟨e, he, rfl⟩ := List.mem_map.1 hr
    obtain ⟨hline, hindex⟩ := h.exits e he
    exact ⟨hline, hindex, fun n hn => (exitState_taken h hn).2⟩
  · show ['B', 'R'] ∈ tags
    decide
  · show ['B', 'R'] ∈ tags
    decide
  · obtain ⟨line, hline, rfl⟩ := List.mem_map.1 hr
    have hcount := h.lineCounts line
    exact ⟨h.lines line hline, by omega⟩
  · show ['L'] ∈ tags
    decide
  · show ['L'] ∈ tags
    decide
  · trivial

/-! ## Reading the records of a section -/

/-- Records that hold no line break are the lines of the text, and an empty one after them. -/
theorem lines_write (rs : List Record) (h : ∀ r ∈ rs, r.Legible) :
    (write rs).splitOn '\n' = rs.map Record.text ++ [[]] := by
  have hlines : write rs = (rs.map Record.text).flatMap fun line => line ++ ['\n'] := by
    rw [write, List.flatMap_map]
  rw [hlines]
  refine splitOn_lines fun line hline => ?_
  obtain ⟨r, hr, rfl⟩ := List.mem_map.1 hline
  exact (Record.plain_text (h r hr)).oneLine

/-- The entries of a text are those of the records it was written from. -/
theorem entries_write {rs : List Record} (h : ∀ r ∈ rs, r.Legible) :
    entries (write rs) = rs.filterMap Record.meaning? := by
  have hlast : entry? (trim []) = none := by decide
  rw [entries, lines_write rs h, List.filterMap_append, List.filterMap_map,
    List.filterMap_cons_none (f := fun line => entry? (trim line)) hlast, List.filterMap_nil,
    List.append_nil]
  exact List.filterMap_congr fun r hr => readsAs_text (h r hr)

/-- What a reader holds of the functions that were declared. -/
def declarations (fs : List FunctionSpan) : List (List Char × Nat) :=
  (fs.map fun f => (f.key.toList, f.line)).reverse

section Fold

variable (s : ReaderState)

/-- Declarations are remembered, the last one first. -/
theorem foldl_declarations (fs : List FunctionSpan) :
    (fs.map fun f => Entry.declaration f.line f.key.toList).foldl ReaderState.take s
      = { s with declared := declarations fs ++ s.declared } := by
  induction fs generalizing s with
  | nil => rfl
  | cons f rest ih =>
    rw [List.map_cons, List.foldl_cons, ih, ReaderState.take, declarations, declarations,
      List.map_cons, List.reverse_cons, List.append_assoc]
    rfl

/-- Every count is joined with the declaration of its function. -/
theorem foldl_calls {fs : List (FunctionSpan × Nat)}
    (h : ∀ f ∈ fs, s.declared.lookup f.1.key.toList = some f.1.line) :
    (fs.map fun f => Entry.calls f.2 f.1.key.toList).foldl ReaderState.take s
      = s.update fun sec =>
        { sec with
          functions := sec.functions ++ fs.map fun f => ⟨f.1.key, some f.1.line, f.2⟩ } := by
  induction fs generalizing s with
  | nil =>
    obtain ⟨ended, current, declared⟩ := s
    simp [ReaderState.update]
  | cons f rest ih =>
    have hf := h f List.mem_cons_self
    rw [List.map_cons, List.foldl_cons, ih]
    · obtain ⟨ended, current, declared⟩ := s
      simp only at hf
      cases current <;> simp [ReaderState.take, ReaderState.update, hf]
    · intro g hg
      exact h g (List.mem_cons_of_mem f hg)

/-- Entries of branches add to the branches of the open section, and to nothing else. -/
theorem foldl_branches {α : Type} (branch : α → BranchCount) (as : List α) :
    (as.map fun a => Entry.branch (branch a).line (branch a).block (branch a).branch
        (branch a).taken).foldl ReaderState.take s
      = s.update fun sec => { sec with branches := sec.branches ++ as.map branch } := by
  induction as generalizing s with
  | nil =>
    obtain ⟨ended, current, declared⟩ := s
    simp [ReaderState.update]
  | cons a rest ih =>
    rw [List.map_cons, List.foldl_cons, ih]
    obtain ⟨ended, current, declared⟩ := s
    cases current <;> simp [ReaderState.take, ReaderState.update]

/-- Entries of lines add to its lines. -/
theorem foldl_lines {α : Type} (count : α → LineCount) (as : List α) :
    (as.map fun a => Entry.line (count a).line (count a).hits).foldl ReaderState.take s
      = s.update fun sec => { sec with lines := sec.lines ++ as.map count } := by
  induction as generalizing s with
  | nil =>
    obtain ⟨ended, current, declared⟩ := s
    simp [ReaderState.update]
  | cons a rest ih =>
    rw [List.map_cons, List.foldl_cons, ih]
    obtain ⟨ended, current, declared⟩ := s
    cases current <;> simp [ReaderState.take, ReaderState.update]

end Fold

/-- Among distinct keys a declaration is found by its own key. -/
theorem lookup_declarations {fs : List FunctionSpan}
    (hdistinct : (fs.map FunctionSpan.key).Nodup) {f : FunctionSpan} (hf : f ∈ fs) :
    (declarations fs).lookup f.key.toList = some f.line := by
  refine Keyed.lookup_of_mem ?_ (List.mem_reverse.2 (List.mem_map_of_mem hf))
  have hkeys : (fs.map fun f => f.key.toList).Nodup := by
    rw [List.nodup_iff_pairwise_ne, List.pairwise_map]
    refine (List.pairwise_map.1 hdistinct).imp fun hne heq => hne ?_
    exact String.toList_inj.1 heq
  rw [declarations, List.map_reverse, List.map_map]
  exact List.nodup_reverse.2 hkeys

/-- What is read of records of one kind is read one by one. -/
theorem filterMap_records {α β : Type} {value : Record → Option β} {record : α → Record}
    (f : α → β) (h : ∀ a, value (record a) = some (f a)) (as : List α) :
    (as.map record).filterMap value = as.map f := by
  have hvalue : value ∘ record = some ∘ f := funext h
  rw [List.filterMap_map, hvalue, List.filterMap_eq_map]

/-- What a reader makes of all records of a section, in their order. -/
theorem entries_records (path : List Char) (l : Ledger) :
    (records path l).filterMap Record.meaning?
      = [.path path]
        ++ l.map.functions.map (fun f => Entry.declaration f.line f.key.toList)
        ++ l.functionHits.map (fun f => Entry.calls f.2 f.1.key.toList)
        ++ l.map.exits.map (fun e =>
          Entry.branch e.line 0 e.index (timesTaken (l.exitState e)))
        ++ l.map.lines.map (fun line => Entry.line line (l.lineHits line))
        ++ [.sectionEnd] := by
  simp only [records, List.filterMap_append]
  rw [filterMap_records (fun f => Entry.declaration f.line f.key.toList) (fun _ => rfl),
    filterMap_records (fun f => Entry.calls f.2 f.1.key.toList) (fun _ => rfl),
    filterMap_records (fun e => Entry.branch e.line 0 e.index (timesTaken (l.exitState e)))
      (fun _ => rfl),
    filterMap_records (fun line => Entry.line line (l.lineHits line)) (fun _ => rfl)]
  simp only [List.filterMap_cons, List.filterMap_nil, Record.meaning?, List.append_nil]

/-- The records of a section leave the section behind. -/
theorem foldl_records (path : List Char) {l : Ledger}
    (hdistinct : (l.map.functions.map FunctionSpan.key).Nodup) (ended : List Section)
    (declared : List (List Char × Nat)) :
    ((records path l).filterMap Record.meaning?).foldl ReaderState.take ⟨ended, none, declared⟩
      = ⟨.ofLedger (String.ofList path) l :: ended, none, []⟩ := by
  -- All declarations stand before the first count.
  have hlookup : ∀ f ∈ l.functionHits,
      (declarations l.map.functions ++ []).lookup f.1.key.toList = some f.1.line := by
    intro f hf
    rw [List.append_nil]
    exact lookup_declarations hdistinct (mem_functionHits hf).1
  rw [entries_records]
  simp only [List.foldl_append, List.foldl_cons, List.foldl_nil]
  rw [ReaderState.take, foldl_declarations, foldl_calls _ hlookup,
    foldl_branches _ fun e : BranchExit => ⟨e.line, 0, e.index, timesTaken (l.exitState e)⟩,
    foldl_lines _ fun line => ⟨line, l.lineHits line⟩]
  rfl

/-! ## Totals -/

/-- An exit counts as hit in the section if it was taken. -/
theorem any_timesTaken (h : Legible l) (e : BranchExit) :
    (timesTaken (l.exitState e)).any (0 < ·) = (l.exitState e).isTaken := by
  cases hstate : l.exitState e with
  | notReached => rfl
  | notTaken => rfl
  | taken n =>
    have hpos := (exitState_taken h hstate).1
    simpa [timesTaken, ExitState.isTaken] using hpos

/-- The totals that a reader works out for a section are those of its ledger. -/
theorem totals_ofLedger (h : Legible l) (path : String) :
    (Section.ofLedger path l).totals = l.totals := by
  have hbranches : l.map.exits.map (fun e => (timesTaken (l.exitState e)).any (0 < ·))
      = l.map.exits.map fun e => (l.exitState e).isTaken :=
    List.map_congr_left fun e _ => any_timesTaken h e
  simp only [Section.totals, Section.ofLedger, List.map_map, Ledger.totals]
  rw [← hbranches]
  rfl

/-! ## What a trace states -/

/-- The numbers that stand alone behind a tag, line by line. -/
def stated (tag text : List Char) : List Nat :=
  (text.splitOn '\n').filterMap fun line => (dropBeginning? (tag ++ [':']) line).bind digits?

/-- A trace states some totals, one after another, category by category. -/
structure States (text : List Char) (totals : List Totals) : Prop where
  functionsFound : stated ['F', 'N', 'F'] text = totals.map (·.functions.found)
  functionsHit : stated ['F', 'N', 'H'] text = totals.map (·.functions.hit)
  branchesFound : stated ['B', 'R', 'F'] text = totals.map (·.branches.found)
  branchesHit : stated ['B', 'R', 'H'] text = totals.map (·.branches.hit)
  linesFound : stated ['L', 'F'] text = totals.map (·.lines.found)
  linesHit : stated ['L', 'H'] text = totals.map (·.lines.hit)

/-- The number that a record states behind a tag. -/
def Record.stated? (tag : List Char) : Record → Option Nat
  | .found t n => if t ++ ['F'] = tag then some n else none
  | .hit t n => if t ++ ['H'] = tag then some n else none
  | _ => none

/-- The tags behind which a number is stated. -/
def statedTags : List (List Char) :=
  [['F', 'N', 'F'], ['F', 'N', 'H'], ['B', 'R', 'F'], ['B', 'R', 'H'], ['L', 'F'], ['L', 'H']]

/-- A record that states a number begins with its own tag, and with no other. -/
theorem dropBeginning?_counted {t tag : List Char} (ht : t ∈ tags) {letter : Char}
    (hletter : letter ∈ ['F', 'H']) (htag : tag ∈ statedTags) (value : List Char) :
    dropBeginning? (tag ++ [':']) (t ++ letter :: ':' :: value)
      = if t ++ [letter] = tag then some value else none := by
  simp only [tags, statedTags, List.mem_cons, List.not_mem_nil, or_false] at ht hletter htag
  rcases ht with rfl | rfl | rfl <;> rcases hletter with rfl | rfl <;>
    rcases htag with rfl | rfl | rfl | rfl | rfl | rfl <;> rfl

/-- A record states a number behind a tag if it is the one that counts the category. -/
theorem stated?_text {tag : List Char} (htag : tag ∈ statedTags) {r : Record} (h : r.Legible) :
    (dropBeginning? (tag ++ [':']) r.text).bind digits? = r.stated? tag := by
  cases r with
  | found t n =>
    rw [Record.text, dropBeginning?_counted h (by decide) htag, Record.stated?]
    split
    · exact Text.Decimal.digits?_ofNat n
    · rfl
  | hit t n =>
    rw [Record.text, dropBeginning?_counted h (by decide) htag, Record.stated?]
    split
    · exact Text.Decimal.digits?_ofNat n
    · rfl
  | _ =>
    -- No other record begins with one of these tags and a colon.
    simp only [statedTags, List.mem_cons, List.not_mem_nil, or_false] at htag
    rcases htag with rfl | rfl | rfl | rfl | rfl | rfl <;> rfl

/-- The numbers that a text states under a tag are those of its records. -/
theorem stated_write {tag : List Char} (htag : tag ∈ statedTags) {rs : List Record}
    (h : ∀ r ∈ rs, r.Legible) : stated tag (write rs) = rs.filterMap (Record.stated? tag) := by
  have hlast : (dropBeginning? (tag ++ [':']) []).bind digits? = none := by
    revert tag
    decide
  rw [stated, lines_write rs h, List.filterMap_append, List.filterMap_map,
    List.filterMap_cons_none (f := fun line => (dropBeginning? (tag ++ [':']) line).bind digits?)
      hlast, List.filterMap_nil, List.append_nil]
  exact List.filterMap_congr fun r hr => stated?_text htag (h r hr)

/-- The records of a section state its totals, and nothing else. -/
theorem filterMap_stated? (tag path : List Char) (l : Ledger) :
    (records path l).filterMap (Record.stated? tag)
      = [.found ['F', 'N'] l.totals.functions.found, .hit ['F', 'N'] l.totals.functions.hit,
          .found ['B', 'R'] l.totals.branches.found, .hit ['B', 'R'] l.totals.branches.hit,
          .found ['L'] l.totals.lines.found, .hit ['L'] l.totals.lines.hit].filterMap
        (Record.stated? tag) := by
  have hnone : ∀ {α : Type} {record : α → Record} (as : List α),
      (∀ a, (record a).stated? tag = none) →
        (as.map record).filterMap (Record.stated? tag) = [] := by
    intro α record as hrecord
    rw [List.filterMap_map, List.filterMap_eq_nil_iff]
    exact fun a _ => hrecord a
  have hpath : [Record.path path].filterMap (Record.stated? tag) = [] := rfl
  have hend : [Record.sectionEnd].filterMap (Record.stated? tag) = [] := rfl
  simp only [records, List.filterMap_append]
  rw [hpath, hend, hnone _ fun _ => rfl, hnone _ fun _ => rfl, hnone _ fun _ => rfl,
    hnone _ fun _ => rfl]
  simp only [List.nil_append, List.append_nil, ← List.filterMap_append]
  rfl

/-! ## Sessions -/

/-- The files in which something ran. -/
def executed (s : Session) : List CoveredFile :=
  s.files.filter fun f => f.ledger.counters.anyRan

/-- The section a reader is to give for a file. -/
def sectionOf (f : CoveredFile) : Section :=
  .ofLedger f.revision.id.text f.ledger

/-- The records of a session, file by file. -/
def recordsOf (files : List CoveredFile) : List Record :=
  files.flatMap fun f => records f.revision.id.text.toList f.ledger

/-- A trace has the records of the files in which something ran, file by file. -/
theorem trace_eq (s : Session) : s.trace = write (recordsOf (executed s)) := by
  rw [Session.trace, Report.trace, List.flatMap_map, recordsOf, write, List.flatMap_assoc,
    executed]
  induction s.files with
  | nil => rfl
  | cons f rest ih =>
    rw [List.flatMap_cons, ih, List.filter_cons]
    -- A file in which nothing ran has no section.
    unfold section?
    split
    · rw [List.flatMap_cons]
      rfl
    · rfl

/-- The reader takes the records of one file after another, and comes out with a section for each;
    between two files none is open. -/
theorem foldl_recordsOf {files : List CoveredFile}
    (h : ∀ f ∈ files, (f.ledger.map.functions.map FunctionSpan.key).Nodup)
    (ended : List Section) :
    ((recordsOf files).filterMap Record.meaning?).foldl ReaderState.take ⟨ended, none, []⟩
      = ⟨(files.map sectionOf).reverse ++ ended, none, []⟩ := by
  induction files generalizing ended with
  | nil => rfl
  | cons f rest ih =>
    have hrest := ih fun g hg => h g (List.mem_cons_of_mem f hg)
    rw [recordsOf, List.flatMap_cons, List.filterMap_append, List.foldl_append,
      foldl_records _ (h f List.mem_cons_self), String.ofList_toList]
    rw [recordsOf] at hrest
    rw [hrest, List.map_cons, List.reverse_cons, List.append_assoc]
    rfl

/-- Each file states its own total, in the order of the files. -/
theorem stated_recordsOf {tag : List Char} {count : Totals → Nat}
    (h : ∀ path l, (records path l).filterMap (Record.stated? tag) = [count l.totals])
    (files : List CoveredFile) :
    (recordsOf files).filterMap (Record.stated? tag)
      = (files.map fun f => f.ledger.totals).map count := by
  induction files with
  | nil => rfl
  | cons f rest ih =>
    rw [recordsOf, List.flatMap_cons, List.filterMap_append, h, List.map_cons, List.map_cons]
    rw [recordsOf] at ih
    rw [ih]
    rfl

/-- A trace states the totals of its files. -/
theorem states_recordsOf {files : List CoveredFile} (h : ∀ r ∈ recordsOf files, r.Legible) :
    States (write (recordsOf files)) (files.map fun f => f.ledger.totals) := by
  have hstated : ∀ {tag : List Char} {count : Totals → Nat}, tag ∈ statedTags →
      (∀ path l, (records path l).filterMap (Record.stated? tag) = [count l.totals]) →
      stated tag (write (recordsOf files)) = (files.map fun f => f.ledger.totals).map count := by
    intro tag count htag hcount
    rw [stated_write htag h, stated_recordsOf hcount]
  constructor
  · exact hstated (by decide) fun path l => (filterMap_stated? _ path l).trans rfl
  · exact hstated (by decide) fun path l => (filterMap_stated? _ path l).trans rfl
  · exact hstated (by decide) fun path l => (filterMap_stated? _ path l).trans rfl
  · exact hstated (by decide) fun path l => (filterMap_stated? _ path l).trans rfl
  · exact hstated (by decide) fun path l => (filterMap_stated? _ path l).trans rfl
  · exact hstated (by decide) fun path l => (filterMap_stated? _ path l).trans rfl

/-- A tracked file whose section can be read back. -/
structure LegibleFile (f : CoveredFile) : Prop where
  path : Plain f.revision.id.text.toList
  ledger : Legible f.ledger

/-- The records of legible files are legible. -/
theorem legible_recordsOf {files : List CoveredFile} (h : ∀ f ∈ files, LegibleFile f) :
    ∀ r ∈ recordsOf files, r.Legible := by
  intro r hr
  obtain ⟨f, hf, hr⟩ := List.mem_flatMap.1 hr
  exact legible_records (h f hf).path (h f hf).ledger r hr

/-- The trace of a session is read back as the sections of the files in which something ran,
    and the totals a reader works out are those of the session and of the trace itself. -/
theorem readBytes_trace {s : Session} (h : ∀ f ∈ s.files, LegibleFile f) :
    readBytes? (Text.Utf8.encode s.trace) = some ((executed s).map sectionOf)
      ∧ (∀ f ∈ executed s, (sectionOf f).totals = f.ledger.totals)
      ∧ total ((executed s).map sectionOf) = .sum ((executed s).map fun f => f.ledger.totals)
      ∧ States s.trace ((executed s).map fun f => f.ledger.totals) := by
  have hfiles : ∀ f ∈ executed s, LegibleFile f := fun f hf => h f (List.mem_filter.1 hf).1
  have hrecords := legible_recordsOf hfiles
  have htotals : ∀ f ∈ executed s, (sectionOf f).totals = f.ledger.totals := fun f hf =>
    totals_ofLedger (hfiles f hf).ledger _
  have htext : Text.Utf8.text? (Text.Utf8.encode s.trace) = some (String.ofList s.trace) := by
    have hback := Text.Utf8.text?_ofString (String.ofList s.trace)
    rwa [Text.Utf8.ofString, String.toList_ofList] at hback
  -- What is read, what it adds up to, and what the text states of it.
  refine ⟨?_, htotals, ?_, ?_⟩
  · rw [readBytes?, htext, Option.map_some, String.toList_ofList, trace_eq, read,
      entries_write hrecords, ReaderState.start,
      foldl_recordsOf (fun f hf => (hfiles f hf).ledger.distinct), ReaderState.sections,
      List.append_nil, Option.toList_none, List.nil_append, List.reverse_reverse]
  · rw [total, List.map_map]
    exact congrArg Totals.sum (List.map_congr_left htotals)
  · rw [trace_eq]
    exact states_recordsOf hrecords

/-- A file in which a function was called once and its line ran twice. -/
def oneCall : CoveredFile where
  revision := ⟨.file "my, file:1.js", .modified 0 0⟩
  source := ""
  bytes := []
  ledger :=
    { map := ⟨[1, 2], [⟨1, 0, [2]⟩], [⟨"f,g:1:0", 1, 2, some 2⟩]⟩
      counters := ⟨⟨3, ⟨[(1, 1), (2, 2)]⟩⟩, .empty, .empty, #[1]⟩ }

theorem legibleFile_oneCall : LegibleFile oneCall where
  path := ⟨by decide, fun c hc => by cases hc; rfl⟩
  ledger :=
    { keys := by
        intro f hf
        cases List.mem_singleton.1 hf
        exact ⟨by decide, fun c hc => by cases hc; rfl⟩
      distinct := by decide
      functions := by decide
      exits := by decide
      lines := by decide
      lineCounts := by
        intro line
        -- Three lines have a counter, the number 0 among them.
        rcases line with _ | _ | _ | line
        · decide
        · decide
        · decide
        · -- There is no counter for a line beyond the second.
          have hbeyond : ¬ line + 1 + 1 + 1 < oneCall.ledger.counters.lines.size := by
            show ¬ line + 1 + 1 + 1 < 3
            omega
          have hzero : oneCall.ledger.lineHits (line + 1 + 1 + 1) = 0 := by
            show Counters.lineHits _ _ = 0
            rw [Counters.lineHits, Table.get?_eq_none_iff.2 hbeyond]
            rfl
          rw [hzero]
          exact Nat.zero_le _
      exitCounts := fun _ => Nat.zero_le _
      callCounts := by
        intro slot
        rcases slot with _ | slot
        · decide
        · show (0 : Nat) ≤ _
          exact Nat.zero_le _ }

/-- A session that tracks this file alone. -/
def calledOnce : Session :=
  ⟨⟨[], none⟩, [oneCall], [], default, .inMemory⟩

theorem executed_calledOnce : executed calledOnce = [oneCall] := by
  refine List.filter_eq_self.2 fun f hf => ?_
  cases List.mem_singleton.1 hf
  decide

theorem readBytes_trace_calledOnce :
    readBytes? (Text.Utf8.encode calledOnce.trace)
      = some [⟨"my, file:1.js", [⟨"f,g:1:0", some 1, 1⟩], [⟨1, 0, 0, some 2⟩],
          [⟨1, 1⟩, ⟨2, 2⟩]⟩] := by
  have hlegible : ∀ f ∈ calledOnce.files, LegibleFile f := by
    intro f hf
    rw [List.mem_singleton.1 hf]
    exact legibleFile_oneCall
  have hread := (readBytes_trace hlegible).1
  rw [executed_calledOnce] at hread
  exact hread

end Coverage.Trace
