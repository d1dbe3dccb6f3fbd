/-
  Coverage.Hits.Ledger

  A site map with what has been counted against it.

  Lines up to the last one of the map have a counter each, in a table fixed when the ledger
  is opened; lines beyond are counted in a bag. Functions have one counter each, and exits
  that an engine reports itself are counted in a bag. What a branch exit has come to is
  inferred from all of these when it is asked for.
-/

import Coverage.Hits.Table
import Coverage.SiteMap.Basic
import Coverage.Tally

namespace Coverage

/-- What a branch exit has come to. -/
inductive ExitState where
  /-- The decision never ran. -/
  | notReached
  /-- The decision ran, and this exit was not taken. -/
  | notTaken
  /-- The exit was taken so often, at least once. -/
  | taken (times : Nat)
  deriving DecidableEq, Repr

namespace ExitState

/-- The largest count that is written. -/
def countLimit : Nat :=
  Text.Decimal.bound63 - 1

/-- The state as one number: -1 if the decision never ran, otherwise how often the exit was
    taken, up to the largest count. -/
def asCount : ExitState → Int
  | .notReached => -1
  | .notTaken => 0
  | .taken n => (min n countLimit : Nat)

/-- Whether the exit was taken. -/
def isTaken : ExitState → Bool
  | .taken _ => true
  | _ => false

end ExitState

/-- The counters of one file. -/
structure Counters where
  /-- By line number; 0 is no line and stays unused. -/
  lines : Table
  /-- Lines beyond the table. -/
  stray : Bag Nat
  /-- Exits reported by line and number. -/
  exits : Bag (Nat × Nat)
  /-- By the slot of the function in the map. -/
  functions : Array Nat
  deriving Inhabited

/-- A site map and the counters kept for it. -/
structure Ledger where
  map : SiteMap
  counters : Counters
  deriving Inhabited

namespace Counters

/-- The counters for a map, all zero. -/
def zero (m : SiteMap) : Counters where
  lines := .zero (m.maxLine + 1)
  stray := .empty
  exits := .empty
  functions := Array.replicate m.functions.length 0

/-! ## Recording -/

/-- Counts a line that ran. -/
def recordLine (c : Counters) (line : Nat) : Counters :=
  if line < c.lines.size then { c with lines := c.lines.add line }
  else { c with stray := c.stray.add line }

/-- Counts an exit that was taken, as the engine reports it. -/
def recordExit (c : Counters) (line index : Nat) : Counters :=
  { c with exits := c.exits.add (line, index) }

/-- Counts a call of the function in a slot. -/
def recordSlot (c : Counters) (slot : Nat) : Counters :=
  { c with functions := c.functions.modify slot (· + 1) }

/-! ## Reading -/

/-- How often a line ran. -/
def lineHits (c : Counters) (line : Nat) : Nat :=
  match c.lines.get? line with
  | some n => n
  | none => c.stray.count line

/-- How often the function in a slot was called. -/
def functionHits (c : Counters) (slot : Nat) : Nat :=
  (c.functions[slot]?).getD 0

/-- What an exit has come to. Counts that the engine reported go first. Otherwise the exit
    was taken as often as the first of its candidates that ran, not taken if only the
    decision ran, and not reached if that did not run either. -/
def exitState (c : Counters) (e : BranchExit) : ExitState :=
  let reported := c.exits.count (e.line, e.index)
  if 0 < reported then .taken reported
  -- From here on the state is inferred from the lines that ran.
  else if c.lineHits e.line = 0 then .notReached
  else
    match (e.candidates.map c.lineHits).find? (0 < ·) with
    | some n => .taken n
    | none => .notTaken

/-- Whether anything was counted at all. -/
def anyRan (c : Counters) : Bool :=
  c.lines.anyPositive || !c.stray.isEmpty || c.functions.any (0 < ·) || !c.exits.isEmpty

end Counters

namespace Ledger

/-- A ledger for a map with nothing counted yet. -/
def ofMap (m : SiteMap) : Ledger :=
  ⟨m, .zero m⟩

/-! ## Which function was entered -/

/-- The functions of the map with their slots. -/
def slots (l : Ledger) : List (FunctionSpan × Nat) :=
  l.map.functions.zipIdx

/-- The slot of the function with a key; of functions with one key, the last. -/
def slotOf? (l : Ledger) (key : String) : Option Nat :=
  (l.slots.reverse.find? fun f => f.1.key = key).map Prod.snd

/-- The first of the best, by an order that tells when one is better than another. -/
def firstBest? {α : Type} (better : α → α → Bool) : List α → Option α
  | [] => none
  | a :: rest => some (rest.foldl (fun best b => if better b best then b else best) a)

/-- The last of the best, by an order that tells when one is better than another. -/
def lastBest? {α : Type} (better : α → α → Bool) : List α → Option α
  | [] => none
  | a :: rest => some (rest.foldl (fun best b => if better best b then best else b) a)

/-- Whether a span begins before another, or at the same line and ends after it, or is the
    same and has the smaller number. -/
def outside (f g : FunctionSpan) : Bool :=
  f.line < g.line
    || (f.line == g.line && (g.endLine < f.endLine
      || (f.endLine == g.endLine && f.index < g.index)))

/-- Whether a span begins after another, or at the same line and ends before it, or is the
    same and has the smaller number. -/
def inside (f g : FunctionSpan) : Bool :=
  g.line < f.line
    || (f.line == g.line && (f.endLine < g.endLine
      || (f.endLine == g.endLine && f.index < g.index)))

/-- Functions of a given name, if a name is given. -/
def named (name : Option String) (fs : List (FunctionSpan × Nat)) :
    List (FunctionSpan × Nat) :=
  fs.filter fun f => name.isSome && f.1.name? = name

/-- The slot of the function that was entered at a line. A function whose body begins there
    goes first: of several, the outermost, since it is entered before those inside it.
    Otherwise it is the innermost function around the line. In both cases a function with
    the reported name is preferred. -/
def slotEntered? (l : Ledger) (name : Option String) (line : Nat) : Option Nat :=
  let beginning := l.slots.filter fun f => f.1.bodyLine = some line
  let around := l.slots.filter fun f => f.1.contains line
  -- Spans that agree in all three parts: the first slot wins outside, the last one inside.
  let outermost := firstBest? fun (f g : FunctionSpan × Nat) => outside f.1 g.1
  let innermost := lastBest? fun (f g : FunctionSpan × Nat) => inside f.1 g.1
  let found :=
    (outermost (named name beginning)).or <| (outermost beginning).or <|
      (innermost (named name around)).or (innermost around)
  found.map Prod.snd

/-! ## Recording -/

/-- Counts a line that ran. -/
def recordLine (l : Ledger) (line : Nat) : Ledger :=
  { l with counters := l.counters.recordLine line }

/-- Counts an exit that was taken. -/
def recordExit (l : Ledger) (line index : Nat) : Ledger :=
  { l with counters := l.counters.recordExit line index }

/-- Counts a call of the function with a key, and says whether there is one. -/
def recordCall (l : Ledger) (key : String) : Bool × Ledger :=
  match l.slotOf? key with
  | some slot => (true, { l with counters := l.counters.recordSlot slot })
  | none => (false, l)

/-- Counts a call of the function that was entered at a line, and gives its key. -/
def recordEntry (l : Ledger) (name : Option String) (line : Nat) : Option String × Ledger :=
  match l.slotEntered? name line with
  | some slot =>
    ((l.map.functions[slot]?).map FunctionSpan.key,
      { l with counters := l.counters.recordSlot slot })
  | none => (none, l)

/-! ## Reading -/

/-- How often a line ran. -/
def lineHits (l : Ledger) (line : Nat) : Nat :=
  l.counters.lineHits line

/-- What an exit has come to. -/
def exitState (l : Ledger) (e : BranchExit) : ExitState :=
  l.counters.exitState e

/-- Each function of the map with its calls. -/
def functionHits (l : Ledger) : List (FunctionSpan × Nat) :=
  l.slots.map fun f => (f.1, l.counters.functionHits f.2)

/-- What was found and what was hit. -/
def totals (l : Ledger) : Totals where
  lines := .ofHits (l.map.lines.map fun line => 0 < l.lineHits line)
  branches := .ofHits (l.map.exits.map fun e => (l.exitState e).isTaken)
  functions := .ofHits (l.functionHits.map fun f => 0 < f.2)

end Ledger
end Coverage
