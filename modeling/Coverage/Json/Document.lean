/-
  Coverage.Json.Document

  The tree that JSON text spells out, with nothing interpreted: strings and numbers stay as
  they are written, members stay in order, and a key may occur twice.

  `Document.ofTokens?` is a machine that takes one token at a time. Its state holds the
  containers that are still open, innermost first, and what may come next; so a document of
  any depth is read without recursion, and reading a list of tokens is a fold.
-/

import Coverage.Json.Token

namespace Coverage.Json

/-- A JSON tree as it is written. -/
inductive Document where
  | null
  | bool (b : Bool)
  | number (n : Numeral)
  | text (t : RawText)
  | array (items : List Document)
  | object (members : List (RawText × Document))

namespace Document

/-! ## The machine -/

/-- A container that is still open, with what it holds so far, last item first. -/
inductive Frame where
  | array (items : List Document)
  /-- The value of `key` is being read. -/
  | object (members : List (RawText × Document)) (key : RawText)

/-- What has been read, by what may come next. -/
inductive State where
  /-- A value. -/
  | value (stack : List Frame)
  /-- The first item of an array, or its end. -/
  | firstItem (stack : List Frame)
  /-- A comma, or the end of the array. -/
  | afterItem (items : List Document) (stack : List Frame)
  /-- The first key of an object, or its end. -/
  | firstKey (stack : List Frame)
  /-- A key. -/
  | nextKey (members : List (RawText × Document)) (stack : List Frame)
  /-- The colon after a key. -/
  | colon (members : List (RawText × Document)) (key : RawText) (stack : List Frame)
  /-- A comma, or the end of the object. -/
  | afterMember (members : List (RawText × Document)) (stack : List Frame)
  /-- Nothing. -/
  | done (document : Document)

/-- The state after a value that stands in the innermost open container. -/
def State.ofValue (d : Document) : List Frame → State
  | [] => .done d
  | .array items :: stack => .afterItem (d :: items) stack
  | .object members k :: stack => .afterMember ((k, d) :: members) stack

/-- The state after the token that begins a value. -/
def State.begin? (stack : List Frame) : Token → Option State
  | .null => some (.ofValue .null stack)
  | .bool b => some (.ofValue (.bool b) stack)
  | .number n => some (.ofValue (.number n) stack)
  | .text t => some (.ofValue (.text t) stack)
  | .arrayStart => some (.firstItem stack)
  | .objectStart => some (.firstKey stack)
  | _ => none

/-- Takes one token, unless it may not come here. -/
def State.step? : State → Token → Option State
  | .value stack, t => begin? stack t
  | .firstItem stack, .arrayEnd => some (.ofValue (.array []) stack)
  | .firstItem stack, t => begin? (.array [] :: stack) t
  | .afterItem items stack, .comma => some (.value (.array items :: stack))
  | .afterItem items stack, .arrayEnd => some (.ofValue (.array items.reverse) stack)
  | .firstKey stack, .objectEnd => some (.ofValue (.object []) stack)
  | .firstKey stack, .text k => some (.colon [] k stack)
  | .nextKey members stack, .text k => some (.colon members k stack)
  | .colon members k stack, .colon => some (.value (.object members k :: stack))
  | .afterMember members stack, .comma => some (.nextKey members stack)
  | .afterMember members stack, .objectEnd => some (.ofValue (.object members.reverse) stack)
  | _, _ => none

/-- The document, if a whole one has been read. -/
def State.document? : State → Option Document
  | .done d => some d
  | _ => none

/-! ## Reading -/

/-- The document that some tokens spell out, if they spell out exactly one. -/
def ofTokens? (ts : List Token) : Option Document :=
  (ts.foldlM State.step? (.value [])).bind State.document?

/-- The document that a text spells out. -/
def ofChars? (cs : Chars) : Option Document :=
  (tokens cs).bind ofTokens?

end Document

/-! ## Strings -/

namespace RawText

/-- The character that a high and a low surrogate code denote together. -/
def joinSurrogates (high low : Nat) : Char :=
  Char.ofNat (0x10000 + (high - 0xD800) * 0x400 + (low - 0xDC00))

/-- Whether a code is the first half of a pair. -/
def isHigh (n : Nat) : Bool :=
  0xD800 ≤ n && n < 0xDC00

/-- Whether a code is the second half of a pair. -/
def isLow (n : Nat) : Bool :=
  0xDC00 ≤ n && n < 0xE000

/-- The characters of a string. It has none if it holds malformed bytes or half a surrogate
    pair. -/
def chars? : RawText → Option (List Char)
  | [] => some []
  | .char none :: _ => none
  | .char (some c) :: rest => (chars? rest).map (c :: ·)
  | .code high :: .code low :: rest =>
    if isHigh high then
      if isLow low then (chars? rest).map (joinSurrogates high low :: ·) else none
    else if isLow high then none
    else (chars? (.code low :: rest)).map (Char.ofNat high :: ·)
  | .code n :: rest =>
    if isHigh n || isLow n then none
    else (chars? rest).map (Char.ofNat n :: ·)

/-- The string that is written, if it is well-formed. -/
def string? (t : RawText) : Option String :=
  (chars? t).map String.ofList

end RawText
end Coverage.Json
