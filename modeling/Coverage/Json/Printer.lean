/-
  Coverage.Json.Printer

  JSON values written out: one item or member a line, each level two spaces further in,
  empty containers as two brackets. Members are written in the order they are given.
-/

import Coverage.Json.Value

namespace Coverage.Json

/-- How strings are written. -/
structure Escaping where
  /-- Characters written as a backslash and one letter. -/
  short : List (Char × Char)
  /-- Characters below this code are otherwise written as a `\u` escape. -/
  firstPlain : Nat

/-- The quote, the backslash and the control characters are escaped, those that have a
    letter of their own by it; every other character stands as itself. -/
def escaping : Escaping where
  short := [('"', '"'), ('\\', '\\'), ('\x08', 'b'), ('\x0C', 'f'), ('\n', 'n'), ('\r', 'r'),
    ('\t', 't')]
  firstPlain := 0x20

/-- A `\u` escape for a code below 256, in lower-case digits. -/
def codeEscape (n : Nat) : List Char :=
  ['\\', 'u', '0', '0', Nat.digitChar (n / 16), Nat.digitChar (n % 16)]

/-- One character of a string. -/
def escapeChar (c : Char) : List Char :=
  match escaping.short.lookup c with
  | some letter => ['\\', letter]
  | none => if c.toNat < escaping.firstPlain then codeEscape c.toNat else [c]

/-- A string between quotes. -/
def quote (s : String) : List Char :=
  '"' :: s.toList.flatMap escapeChar ++ ['"']

/-- A number as it is written. -/
def Numeral.render (n : Numeral) : List Char :=
  (if n.negative then ['-'] else []) ++ n.whole
    ++ (match n.fraction with
        | none => []
        | some ds => '.' :: ds)
    ++ (match n.exponent with
        | none => []
        | some (negative, ds) => 'e' :: (if negative then ['-'] else []) ++ ds)

/-- A new line, indented to a level. -/
def newLine (level : Nat) : List Char :=
  '\n' :: List.replicate (2 * level) ' '

namespace Value

mutual

/-- A value whose first line is already indented, inside `level` containers. -/
def renderAt (level : Nat) : Value → List Char
  | .null => ['n', 'u', 'l', 'l']
  | .bool true => ['t', 'r', 'u', 'e']
  | .bool false => ['f', 'a', 'l', 's', 'e']
  | .int n => Text.Decimal.ofInt n
  | .real n => n.render
  | .text s => quote s
  | .array [] => ['[', ']']
  | .array (v :: rest) =>
    '[' :: newLine (level + 1) ++ renderAt (level + 1) v ++ renderItems (level + 1) rest
      ++ newLine level ++ [']']
  | .object [] => ['\x7b', '\x7d']
  | .object ((k, v) :: rest) =>
    '\x7b' :: newLine (level + 1) ++ quote k ++ [':', ' '] ++ renderAt (level + 1) v
      ++ renderMembers (level + 1) rest ++ newLine level ++ ['\x7d']

/-- The items of an array after its first. -/
def renderItems (level : Nat) : List Value → List Char
  | [] => []
  | v :: rest => ',' :: newLine level ++ renderAt level v ++ renderItems level rest

/-- The members of an object after its first. -/
def renderMembers (level : Nat) : List (String × Value) → List Char
  | [] => []
  | (k, v) :: rest =>
    ',' :: newLine level ++ quote k ++ [':', ' '] ++ renderAt level v
      ++ renderMembers level rest

end

/-- A value on lines of its own, with a line end after the last. -/
def render (v : Value) : List Char :=
  renderAt 0 v ++ ['\n']

end Value
end Coverage.Json
