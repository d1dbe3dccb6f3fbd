/-
  Coverage.Json.Value

  JSON values: what a document means.

  The members of an object are ordered by key, and of a key that is written twice the last
  value counts. Integers of 64 bits are exact, any other number is a real and keeps its
  written form. A document has no value if a string in it is malformed, a real is beyond
  the range of binary64, or containers are nested deeper than the reader allows.
-/

import Coverage.Json.Document
import Coverage.Keyed

namespace Coverage.Json

/-- A JSON value. -/
inductive Value where
  | null
  | bool (b : Bool)
  | int (n : Int)
  | real (n : Numeral)
  | text (s : String)
  | array (items : List Value)
  | object (members : List (String × Value))

/-! ## The meaning of a document -/

/-- What a number denotes, if it is in range. -/
def Numeral.value? (n : Numeral) : Option Value :=
  match n.integer? with
  | some i => some (.int i)
  | none => if n.overflows then none else some (.real n)

mutual

/-- The value of a document in which containers are nested at most `depth` deep. -/
def Document.value? (depth : Nat) : Document → Option Value
  | .null => some .null
  | .bool b => some (.bool b)
  | .number n => n.value?
  | .text t => t.string?.map .text
  | .array items =>
    if depth = 0 then none else (itemValues? (depth - 1) items).map .array
  | .object members =>
    if depth = 0 then none
    else (memberValues? (depth - 1) members).map fun ms => .object (Keyed.ofList ms)

/-- The values of the items of an array. -/
def itemValues? (depth : Nat) : List Document → Option (List Value)
  | [] => some []
  | d :: rest => do
    let v ← d.value? depth
    let vs ← itemValues? depth rest
    return v :: vs

/-- The keys and values of the members of an object, as they are written. -/
def memberValues? (depth : Nat) : List (RawText × Document) → Option (List (String × Value))
  | [] => some []
  | (k, d) :: rest => do
    let key ← k.string?
    let v ← d.value? depth
    let vs ← memberValues? depth rest
    return (key, v) :: vs

end

/-- How deep containers may be nested in a text that is read as a value. -/
def nestingLimit : Nat := 127

namespace Value

/-- The value that a text spells out. -/
def ofChars? (cs : Chars) : Option Value :=
  (Document.ofChars? cs).bind (Document.value? nestingLimit)

/-- The value that a string spells out. -/
def ofString? (s : String) : Option Value :=
  ofChars? (s.toList.map some)

/-! ## Looking inside -/

/-- The members of an object. -/
def members? : Value → Option (List (String × Value))
  | .object ms => some ms
  | _ => none

/-- The value of a key, if this is an object that has it. -/
def get? (v : Value) (key : String) : Option Value :=
  v.members?.bind (·.lookup key)

/-- Whether this is an object that has a key. -/
def hasKey (v : Value) (key : String) : Bool :=
  (v.get? key).isSome

/-- The items of an array. -/
def items? : Value → Option (List Value)
  | .array vs => some vs
  | _ => none

/-- The text of a string. -/
def text? : Value → Option String
  | .text s => some s
  | _ => none

/-- A natural number below `bound`. -/
def natBelow? (bound : Nat) : Value → Option Nat
  | .int (.ofNat n) => if n < bound then some n else none
  | _ => none

/-! ## A part is smaller than the whole -/

/-- A value in a list of members is smaller than the list. -/
theorem sizeOf_lt_of_lookup {key : String} {ms : List (String × Value)} {v : Value}
    (h : ms.lookup key = some v) : sizeOf v < sizeOf ms := by
  induction ms with
  | nil => simp at h
  | cons m rest ih =>
    obtain ⟨k, w⟩ := m
    rw [List.lookup_cons] at h
    split at h
    · obtain rfl := Option.some.inj h
      simp; omega
    · have := ih h
      simp; omega

/-- The value of a key is smaller than the object. -/
theorem sizeOf_get?_lt {v w : Value} {key : String} (h : v.get? key = some w) :
    sizeOf w < sizeOf v := by
  obtain ⟨ms, hms, hw⟩ := Option.bind_eq_some_iff.1 h
  cases v <;> simp [members?] at hms
  subst hms
  have := sizeOf_lt_of_lookup hw
  simp; omega

/-- An item is smaller than the array. -/
theorem sizeOf_lt_of_mem_items {v w : Value} {vs : List Value} (h : v.items? = some vs)
    (hw : w ∈ vs) : sizeOf w < sizeOf v := by
  cases v <;> simp [items?] at h
  subst h
  have := List.sizeOf_lt_of_mem hw
  simp; omega

end Value
end Coverage.Json
