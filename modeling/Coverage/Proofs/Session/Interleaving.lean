/-
  Coverage.Proofs.Session.Interleaving

  How the events of several sources are mixed makes no difference.

  What concerns a place after a run is what its own events make of it
  (`sameAt_replay`, by induction on the events: one of the place is done on both sides, one of
  another place is not seen).  In the same way the events of a place add the same to the
  statistics wherever they stand (`gains_filter`), and sums do not depend on their order.  So
  two runs with the same events of each source come to the same files, in some order, and to
  caches that answer alike (`replay_interleaved`).
-/

import Coverage.Proofs.Cache.Transaction
import Coverage.Proofs.Session.Separate
import Coverage.Session.Report

namespace Coverage.Session

open SourceId (Place)

variable {e : Surroundings} {p : Place} {s t : Session} {xs ys : List Event}

/-- The session after some events. -/
def replay (e : Surroundings) (s : Session) (xs : List Event) : Session :=
  s.run e (xs.map Event.step)

theorem replay_cons (e : Surroundings) (s : Session) (x : Event) (xs : List Event) :
    s.replay e (x :: xs) = (s.take e x.step).replay e xs := rfl

/-- The events of a place. -/
def eventsAt (p : Place) (xs : List Event) : List Event :=
  xs.filter fun x => x.id.place = p

theorem eventsAt_cons_self {x : Event} (h : x.id.place = p) (xs : List Event) :
    eventsAt p (x :: xs) = x :: eventsAt p xs :=
  List.filter_cons_of_pos (decide_eq_true h)

/-- An event of another place is left out. -/
theorem eventsAt_cons_of_ne {x : Event} (h : x.id.place ≠ p) (xs : List Event) :
    eventsAt p (x :: xs) = eventsAt p xs :=
  List.filter_cons_of_neg (by simpa using h)

/-- Neighbouring events of different places may change their order. -/
theorem eventsAt_swap {x y : Event} (h : x.id.place ≠ y.id.place) (p : Place) (xs : List Event) :
    eventsAt p (x :: y :: xs) = eventsAt p (y :: x :: xs) := by
  by_cases hx : x.id.place = p
  · have hy : y.id.place ≠ p := fun hy => h (hx.trans hy.symm)
    rw [eventsAt_cons_self hx, eventsAt_cons_of_ne hy, eventsAt_cons_of_ne hy,
      eventsAt_cons_self hx]
  · rw [eventsAt_cons_of_ne hx]
    by_cases hy : y.id.place = p
    · rw [eventsAt_cons_self hy, eventsAt_cons_self hy, eventsAt_cons_of_ne hx]
    · rw [eventsAt_cons_of_ne hy, eventsAt_cons_of_ne hy, eventsAt_cons_of_ne hx]

/-- The sources of some events are named by their texts. -/
def Named (xs : List Event) : Prop :=
  ∀ x ∈ xs, SourceId.ofText? x.id.text = some x.id

theorem Named.head {x : Event} (h : Named (x :: xs)) : SourceId.ofText? x.id.text = some x.id :=
  h x List.mem_cons_self

theorem Named.tail {x : Event} (h : Named (x :: xs)) : Named xs :=
  fun y hy => h y (List.mem_cons_of_mem x hy)

/-! ## What concerns a place -/

/-- Events of other sources are not seen at a place. -/
theorem SameAt.take_right (h : SameAt p s t) {x : Event}
    (hnamed : SourceId.ofText? x.id.text = some x.id) (hp : x.id.place ≠ p) :
    SameAt p (s.take e x.step) t :=
  ((concerns_take hnamed).frame s p hp.symm (h.trans h.symm)).symm.trans h

/-- What concerns a place after a run is what its own events make of it. -/
theorem sameAt_replay (h : SameAt p s t) (hnamed : Named xs) :
    SameAt p (s.replay e xs) (t.replay e (eventsAt p xs)) := by
  induction xs generalizing s t with
  | nil => exact h
  | cons x rest ih =>
    rw [replay_cons]
    by_cases hp : x.id.place = p
    · -- An event of the place is done on both sides.
      rw [eventsAt_cons_self hp, replay_cons]
      have hstep := (concerns_take (e := e) hnamed.head).own s t (hp ▸ h)
      exact ih (hp ▸ hstep.same) hnamed.tail
    · rw [eventsAt_cons_of_ne hp]
      exact ih (h.take_right hnamed.head hp) hnamed.tail

/-! ## Statistics -/

/-- What the events of a run add to the statistics, each under its place. -/
def gains (e : Surroundings) (s : Session) : List Event → List (Place × Statistics)
  | [] => []
  | x :: rest =>
    (x.id.place, (s.take e x.step).stats.since s.stats) :: gains e (s.take e x.step) rest

/-- The events of a place add the same wherever they stand. -/
theorem gains_filter (h : SameAt p s t) (hnamed : Named xs) :
    (gains e s xs).filter (·.1 = p) = gains e t (eventsAt p xs) := by
  induction xs generalizing s t with
  | nil => rfl
  | cons x rest ih =>
    by_cases hp : x.id.place = p
    · have hstep := (concerns_take (e := e) hnamed.head).own s t (hp ▸ h)
      obtain ⟨d, hs, ht⟩ := hstep.counted
      rw [eventsAt_cons_self hp, gains, gains, List.filter_cons_of_pos (by simpa using hp),
        ih (hp ▸ hstep.same) hnamed.tail, hs, ht, Statistics.since_plus, Statistics.since_plus]
    · rw [eventsAt_cons_of_ne hp, gains, List.filter_cons_of_neg (by simpa using hp)]
      exact ih (h.take_right hnamed.head hp) hnamed.tail

/-- The statistics of a run are the sum of what its events add. -/
theorem stats_replay (h : s.cache.store.tables.Sound) (hnamed : Named xs) :
    (s.replay e xs).stats = ((gains e s xs).map Prod.snd).foldl Statistics.plus s.stats := by
  induction xs generalizing s with
  | nil => rfl
  | cons x rest ih =>
    have hstep := (concerns_take (e := e) hnamed.head).own s s (sameAt_self h)
    obtain ⟨d, hs, -⟩ := hstep.counted
    rw [replay_cons, gains, List.map_cons, List.foldl_cons, ih hstep.same.cache.sound hnamed.tail,
      hs, Statistics.since_plus]

/-! ## Lists that agree under each key -/

/-- Lists that have the same members of each kind, in whatever order, are the same but for the
    order. -/
theorem perm_of_filter {α κ : Type} [DecidableEq κ] (key : α → κ) {as bs : List α}
    (h : ∀ k, as.filter (key · = k) = bs.filter (key · = k)) : as.Perm bs := by
  classical
  rw [List.perm_iff_count]
  intro a
  -- Each member is counted among those of its kind.
  have hkind : decide (key a = key a) = true := decide_eq_true rfl
  rw [← List.count_filter (p := fun b => key b = key a) hkind, h (key a),
    List.count_filter (p := fun b => key b = key a) hkind]

/-- Runs with the same events at each place gain the same, in some order. -/
theorem perm_gains (h : s.cache.store.tables.Sound) (hx : Named xs) (hy : Named ys)
    (hsame : ∀ p, eventsAt p xs = eventsAt p ys) : (gains e s xs).Perm (gains e s ys) := by
  refine perm_of_filter Prod.fst fun p => ?_
  rw [gains_filter (sameAt_self h) hx, gains_filter (sameAt_self h) hy, hsame p]

/-! ## Sessions that agree everywhere -/

/-- The sections of a trace, one for each file in which something ran. -/
def sections (s : Session) : List (List Char) :=
  s.files.filterMap fun f => Trace.section? f.revision.id.text.toList f.ledger

/-- A trace is its sections one after another. -/
theorem trace_eq_flatten (s : Session) : s.trace = s.sections.flatten := by
  rw [trace, Report.trace, List.flatMap_map, sections]
  induction s.files with
  | nil => rfl
  | cons f rest ih =>
    rw [List.flatMap_cons, ih, List.filterMap_cons]
    cases Trace.section? f.revision.id.text.toList f.ledger with
    | none => rfl
    | some text => rfl

/-- Two sessions differ in nothing but the order of their files. -/
structure Interchangeable (s t : Session) : Prop where
  settings : s.settings = t.settings
  /-- The same files are tracked, each with the same revision, content, map and counts. -/
  files : s.files.Perm t.files
  /-- Each source has the same file. -/
  found : ∀ id : SourceId, s.files.find? (·.revision.id.place = id.place)
    = t.files.find? (·.revision.id.place = id.place)
  failed : ∀ p, p ∈ s.failed ↔ p ∈ t.failed
  stats : s.stats = t.stats
  cache : s.cache.AnswerAlike t.cache
  trace : s.trace = s.sections.flatten
  trace' : t.trace = t.sections.flatten
  sections : s.sections.Perm t.sections

/-- Sessions that agree at every place differ in the order of their files alone. -/
theorem interchangeable (h : ∀ p, SameAt p s t) (hstats : s.stats = t.stats) :
    Interchangeable s t := by
  have hfiles : s.files.Perm t.files :=
    perm_of_filter (fun f : CoveredFile => f.revision.id.place) fun p => (h p).files
  have hcache : Cache.Alike (fun _ => True) s.cache t.cache := by
    -- What all places agree about is known from any of them; each key leads to one.
    have hany := h (.file [])
    exact { hany.cache with slot := fun key _ => (h (SourceId.spelled key)).cache.slot key rfl }
  refine ⟨(h (.file [])).settings, hfiles, fun id => ?_, fun p => (h p).failed, hstats,
    hcache.answers, trace_eq_flatten s, trace_eq_flatten t, hfiles.filterMap _⟩
  rw [← List.head?_filter, ← List.head?_filter]
  exact congrArg List.head? (h id.place).files

/-- Two runs over the same events of each source, mixed in any way, end in sessions that
    differ in nothing but the order of their files. -/
theorem replay_interleaved (hcache : s.cache.store.tables.Sound) (hnamed : Named xs)
    (hsame : ∀ p, eventsAt p xs = eventsAt p ys) :
    Interchangeable (s.replay e xs) (s.replay e ys) := by
  have hnamed' : Named ys := by
    -- Both runs have the same events.
    intro y hy
    have hmem : y ∈ eventsAt y.id.place ys := List.mem_filter.2 ⟨hy, decide_eq_true rfl⟩
    rw [← hsame] at hmem
    exact hnamed y (List.mem_filter.1 hmem).1
  apply interchangeable
  · -- At each place both runs come to what the events of the place come to by themselves.
    intro p
    have hself : SameAt p s s := sameAt_self hcache
    have hxs := sameAt_replay (e := e) hself hnamed
    have hys := sameAt_replay (e := e) hself hnamed'
    rw [hsame p] at hxs
    exact hxs.trans hys.symm
  · -- The same summands in another order.
    rw [stats_replay hcache hnamed, stats_replay hcache hnamed']
    have hperm := (perm_gains (e := e) hcache hnamed hnamed' hsame).map Prod.snd
    exact hperm.foldl_eq' (fun d _ d' _ a => Statistics.plus_right_comm a d d') s.stats

/-- A session over the files of `oneScript`, with a cache in which the token of that script is
    lost. -/
def lostToken : Session :=
  .start ⟨[], none⟩ <| .memory <| Cache.Store.empty.run
    [.change (.save ⟨.file "/a.js", .modified 0 5⟩ ⟨[], [], []⟩), .damage (.token .noToken none)]

/-- The script is there, and the other source is not. -/
def mixed : List Event :=
  [.line (.file "/a.js") 1, .line (.file "b.js") 2, .entry (.file "/a.js") (some "f") 3]

/-- The first event of the script finds an entry that cannot be read and replaces it, whether
    the event of the other source comes before or after. -/
theorem replay_interleaved_mixed :
    (lostToken.replay Host.oneScript mixed).failed = [(SourceId.file "b.js").place]
      ∧ (lostToken.replay Host.oneScript mixed).stats = ⟨0, 1, 1, 1, 0⟩
      ∧ Interchangeable (lostToken.replay Host.oneScript mixed)
          (lostToken.replay Host.oneScript
            [.line (.file "b.js") 2, .line (.file "/a.js") 1,
              .entry (.file "/a.js") (some "f") 3]) := by
  have hsound : lostToken.cache.store.tables.Sound :=
    Cache.Store.sound_run Cache.Tables.sound_empty _
  have hnamed : Named mixed := by
    unfold Named
    decide
  refine ⟨by decide +kernel, by decide +kernel, ?_⟩
  refine replay_interleaved hsound hnamed fun p => eventsAt_swap ?_ p _
  decide

end Coverage.Session
