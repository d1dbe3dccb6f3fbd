/-
  Coverage.Bundle.Record

  One entry of a bundle: a freshness token and a site map in the shape in which they are
  written. Exits of one line stand together in a point, and their numbers are their
  positions in it.
-/

import Coverage.Fault
import Coverage.SiteMap.Basic
import Coverage.Source.Revision

namespace Coverage.Bundle

/-- The exits of the decisions on one line. -/
structure Point where
  line : Nat
  exits : List (List Nat)
  deriving DecidableEq, Repr

/-- One entry. Exactly one of the two tokens is set, or the entry is not valid. -/
structure Record where
  modified : Option (Int × Nat)
  digest : Option String
  lines : List Nat
  points : List Point
  functions : List FunctionSpan
  deriving DecidableEq, Repr

/-! ## From a site map -/

/-- Puts an exit before some points: into the first of them if that is on its line. -/
def consExit (e : BranchExit) : List Point → List Point
  | [] => [⟨e.line, [e.candidates]⟩]
  | p :: rest =>
    if p.line = e.line then ⟨p.line, e.candidates :: p.exits⟩ :: rest
    else ⟨e.line, [e.candidates]⟩ :: p :: rest

/-- Neighbouring exits of one line in one point. -/
def pointsOf (exits : List BranchExit) : List Point :=
  exits.foldr consExit []

/-- The entry for a token and a site map. -/
def Record.of (f : Freshness) (m : SiteMap) : Record where
  modified := match f with
    | .modified seconds micros => some (seconds, micros)
    | .digest _ => none
  digest := match f with
    | .modified .. => none
    | .digest hex => some hex
  lines := m.lines
  points := pointsOf m.exits
  functions := m.functions

/-! ## Back to a site map -/

/-- The exits of a point, numbered by position. -/
def Point.numbered (p : Point) : List BranchExit :=
  p.exits.zipIdx.map fun e => ⟨p.line, e.2, e.1⟩

/-- The canonical site map of an entry. -/
def Record.map (r : Record) : SiteMap :=
  SiteMap.canonical
    { lines := r.lines
      exits := r.points.flatMap Point.numbered
      functions := r.functions.map fun f => { f with endLine := max f.endLine f.line } }

/-- Whether a character is a hexadecimal digit. -/
def isHexDigit (c : Char) : Bool :=
  c.isDigit || ('a' ≤ c && c ≤ 'f') || ('A' ≤ c && c ≤ 'F')

/-- The token of the entry of an identity. -/
def Record.freshness (r : Record) (id : String) : Except Fault Freshness :=
  match r.modified, r.digest with
  | some (seconds, micros), none => .ok (.modified seconds micros)
  | none, some hex =>
    if hex ≠ "" ∧ hex.toList.all isHexDigit then .ok (.digest hex)
    else .error (.malformedDigest id)
  | _, _ => .error (.ambiguousFreshness id)

end Coverage.Bundle
