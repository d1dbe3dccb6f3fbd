/-
  Coverage.Keyed

  Entries ordered by key, each key once. `ofList` keeps the last entry of every key.
-/

namespace Coverage.Keyed

variable {α : Type}

/-- Puts an entry in its place, in place of one that has the same key. -/
def insert (key : String) (a : α) : List (String × α) → List (String × α)
  | [] => [(key, a)]
  | (k, b) :: rest =>
    if key < k then (key, a) :: (k, b) :: rest
    else if key = k then (key, a) :: rest
    else (k, b) :: insert key a rest

/-- Entries in order of key, the last of each key. -/
def ofList (entries : List (String × α)) : List (String × α) :=
  entries.foldl (fun acc e => insert e.1 e.2 acc) []

end Coverage.Keyed
