/-
  Coverage.Text.Cut

  Text cut at a separator character: at its first occurrence, at its last one, or at the
  first few.
-/

namespace Coverage.Text

/-- What stands before and after the first `sep`. -/
def cutFirst? (sep : Char) : List Char → Option (List Char × List Char)
  | [] => none
  | c :: rest =>
    if c = sep then some ([], rest)
    else (cutFirst? sep rest).map fun p => (c :: p.1, p.2)

/-- What stands before and after the last `sep`. -/
def cutLast? (sep : Char) : List Char → Option (List Char × List Char)
  | [] => none
  | c :: rest =>
    match cutLast? sep rest with
    | some p => some (c :: p.1, p.2)
    | none => if c = sep then some ([], rest) else none

/-- At most `n + 1` parts: cut at the first `n` separators, the last part taking the rest. -/
def cutUpTo (sep : Char) : Nat → List Char → List (List Char)
  | 0, cs => [cs]
  | n + 1, cs =>
    match cutFirst? sep cs with
    | none => [cs]
    | some p => p.1 :: cutUpTo sep n p.2

/-- The text after a given beginning, if it begins so. -/
def dropBeginning? : List Char → List Char → Option (List Char)
  | [], cs => some cs
  | _ :: _, [] => none
  | b :: bs, c :: cs => if b = c then dropBeginning? bs cs else none

end Coverage.Text
