/-
  Coverage.Json.Token

  JSON text cut into tokens.

  The lexer keeps what is written: a string token holds its characters and its `\u` codes
  one by one, with malformed bytes among them, and a number token holds its digits. What a
  token means, and whether it means anything, is decided by whoever uses it; so a value
  that is skipped is held only to the grammar.

  `scanText`, `scanNumber` and `nextToken` each return the rest of the text;
  `nextToken_shorter` says that it is shorter, which is why `tokens` ends.
-/

import Coverage.Json.Numeral

namespace Coverage.Json

/-- Characters as they come out of bytes: `none` stands for a malformed sequence. -/
abbrev Chars := List (Option Char)

/-- One unit of a string as it is written. -/
inductive Piece where
  /-- A character, or a malformed sequence of bytes. -/
  | char (c : Option Char)
  /-- A `\u` escape with its four hexadecimal digits. -/
  | code (n : Nat)
  deriving DecidableEq, Repr

/-- A string as it is written, without its quotes. -/
abbrev RawText := List Piece

/-- The tokens of JSON. -/
inductive Token where
  | arrayStart
  | arrayEnd
  | objectStart
  | objectEnd
  | comma
  | colon
  | null
  | bool (b : Bool)
  | number (n : Numeral)
  | text (t : RawText)
  deriving DecidableEq, Repr

/-! ## Strings -/

/-- The value of a hexadecimal digit in either case. -/
def hexDigit? (c : Char) : Option Nat :=
  if '0' ≤ c ∧ c ≤ '9' then some (c.toNat - '0'.toNat)
  else if 'a' ≤ c ∧ c ≤ 'f' then some (c.toNat - 'a'.toNat + 10)
  else if 'A' ≤ c ∧ c ≤ 'F' then some (c.toNat - 'A'.toNat + 10)
  else none

/-- The number that four hexadecimal digits denote. -/
def hexCode? (a b c d : Char) : Option Nat := do
  let a ← hexDigit? a
  let b ← hexDigit? b
  let c ← hexDigit? c
  let d ← hexDigit? d
  return ((a * 16 + b) * 16 + c) * 16 + d

/-- The character that a backslash and one letter stand for. -/
def shortEscape? : Char → Option Char
  | '"' => some '"'
  | '\\' => some '\\'
  | '/' => some '/'
  | 'b' => some '\x08'
  | 'f' => some '\x0C'
  | 'n' => some '\n'
  | 'r' => some '\r'
  | 't' => some '\t'
  | _ => none

/-- Whether a character may not stand in a string as itself. -/
def isControl (c : Char) : Bool :=
  c.toNat < 0x20

/-- Puts a piece before the text that has been scanned after it. -/
def consPiece (p : Piece) (scanned : Option (RawText × Chars)) : Option (RawText × Chars) :=
  scanned.map fun r => (p :: r.1, r.2)

/-- Scans the rest of a string, up to and including its closing quote. -/
def scanText : Chars → Option (RawText × Chars)
  | [] => none
  | some '"' :: rest => some ([], rest)
  | some '\\' :: some 'u' :: some a :: some b :: some c :: some d :: rest =>
    match hexCode? a b c d with
    | some n => consPiece (.code n) (scanText rest)
    | none => none
  | some '\\' :: some e :: rest =>
    match shortEscape? e with
    | some c => consPiece (.char (some c)) (scanText rest)
    | none => none
  | some '\\' :: _ => none
  | some c :: rest =>
    if isControl c then none else consPiece (.char (some c)) (scanText rest)
  | none :: rest => consPiece (.char none) (scanText rest)

/-! ## Numbers -/

/-- The digits at the beginning of a text, and what follows them. -/
def scanDigits : Chars → List Char × Chars
  | some c :: rest =>
    if c.isDigit then
      let r := scanDigits rest
      (c :: r.1, r.2)
    else ([], some c :: rest)
  | rest => ([], rest)

/-- One digit or more. -/
def scanDigits1 (cs : Chars) : Option (List Char × Chars) :=
  let r := scanDigits cs
  if r.1 = [] then none else some r

/-- A minus sign, if there is one. -/
def scanMinus : Chars → Bool × Chars
  | some '-' :: rest => (true, rest)
  | rest => (false, rest)

/-- A sign, if there is one. -/
def scanSign : Chars → Bool × Chars
  | some '+' :: rest => (false, rest)
  | rest => scanMinus rest

/-- Whether a zero stands before another digit. -/
def hasLeadingZero : List Char → Bool
  | '0' :: _ :: _ => true
  | _ => false

/-- The digits before the point. -/
def scanWhole (cs : Chars) : Option (List Char × Chars) :=
  (scanDigits1 cs).filter fun r => !hasLeadingZero r.1

/-- The point and the digits after it, if there is a point. -/
def scanFraction : Chars → Option (Option (List Char) × Chars)
  | some '.' :: rest => (scanDigits1 rest).map fun r => (some r.1, r.2)
  | rest => some (none, rest)

/-- The letter, the sign and the digits of an exponent, if there is one. -/
def scanExponent : Chars → Option (Option (Bool × List Char) × Chars)
  | some c :: rest =>
    if c = 'e' ∨ c = 'E' then
      let sign := scanSign rest
      (scanDigits1 sign.2).map fun r => (some (sign.1, r.1), r.2)
    else some (none, some c :: rest)
  | rest => some (none, rest)

/-- A number. -/
def scanNumber (cs : Chars) : Option (Numeral × Chars) := do
  let sign := scanMinus cs
  let whole ← scanWhole sign.2
  let fraction ← scanFraction whole.2
  let exponent ← scanExponent fraction.2
  return (⟨sign.1, whole.1, fraction.1, exponent.1⟩, exponent.2)

/-! ## Tokens -/

/-- Whether a character is the white space of JSON. -/
def isSpace (c : Char) : Bool :=
  c = ' ' || c = '\t' || c = '\n' || c = '\r'

/-- The token at the beginning of a text that does not begin with white space. -/
def nextToken : Chars → Option (Token × Chars)
  | some '[' :: rest => some (.arrayStart, rest)
  | some ']' :: rest => some (.arrayEnd, rest)
  | some '\x7b' :: rest => some (.objectStart, rest)
  | some '\x7d' :: rest => some (.objectEnd, rest)
  | some ',' :: rest => some (.comma, rest)
  | some ':' :: rest => some (.colon, rest)
  | some '"' :: rest => (scanText rest).map fun r => (.text r.1, r.2)
  | some 'n' :: some 'u' :: some 'l' :: some 'l' :: rest => some (.null, rest)
  | some 't' :: some 'r' :: some 'u' :: some 'e' :: rest => some (.bool true, rest)
  | some 'f' :: some 'a' :: some 'l' :: some 's' :: some 'e' :: rest => some (.bool false, rest)
  | cs => (scanNumber cs).map fun r => (.number r.1, r.2)

/-! ## Every token takes at least one character -/

/-- Reading a string takes at least its closing quote. -/
theorem scanText_shorter (cs : Chars) (r : RawText × Chars) (h : scanText cs = some r) :
    r.2.length < cs.length := by
  fun_induction scanText cs generalizing r with
  | case1 => simp at h
  | case2 rest => simp at h; subst h; simp
  | case3 a b c d rest n hn ih =>
    obtain ⟨t, ht, rfl⟩ := Option.map_eq_some_iff.1 h
    have := ih t ht
    simp; omega
  | case4 => simp at h
  | case5 e rest _ c hc ih =>
    obtain ⟨t, ht, rfl⟩ := Option.map_eq_some_iff.1 h
    have := ih t ht
    simp; omega
  | case6 => simp at h
  | case7 => simp at h
  | case8 => simp at h
  | case9 c rest _ _ _ _ _ ih =>
    obtain ⟨t, ht, rfl⟩ := Option.map_eq_some_iff.1 h
    have := ih t ht
    simp; omega
  | case10 rest ih =>
    obtain ⟨t, ht, rfl⟩ := Option.map_eq_some_iff.1 h
    have := ih t ht
    simp; omega

/-- Digits and what is left are all that there was. -/
theorem scanDigits_length (cs : Chars) :
    (scanDigits cs).1.length + (scanDigits cs).2.length = cs.length := by
  fun_induction scanDigits cs with
  | case1 c rest hc r ih => simp only [r, List.length_cons]; omega
  | case2 => simp
  | case3 => simp

/-- Reading digits of which there is at least one takes some of the text. -/
theorem scanDigits1_shorter (cs : Chars) (r : List Char × Chars) (h : scanDigits1 cs = some r) :
    r.2.length < cs.length := by
  have hl := scanDigits_length cs
  simp only [scanDigits1] at h
  split at h
  · simp at h
  · rename_i hne
    obtain rfl := Option.some.inj h
    have := List.length_pos_iff.2 hne
    omega

theorem scanMinus_length (cs : Chars) : (scanMinus cs).2.length ≤ cs.length := by
  unfold scanMinus; split <;> simp

theorem scanSign_length (cs : Chars) : (scanSign cs).2.length ≤ cs.length := by
  unfold scanSign
  split
  · simp
  · exact scanMinus_length _

theorem scanFraction_length (cs : Chars) (r : Option (List Char) × Chars)
    (h : scanFraction cs = some r) : r.2.length ≤ cs.length := by
  unfold scanFraction at h
  split at h
  · obtain ⟨t, ht, rfl⟩ := Option.map_eq_some_iff.1 h
    have := scanDigits1_shorter _ _ ht
    simp; omega
  · obtain rfl := Option.some.inj h
    simp

theorem scanExponent_length (cs : Chars) (r : Option (Bool × List Char) × Chars)
    (h : scanExponent cs = some r) : r.2.length ≤ cs.length := by
  unfold scanExponent at h
  split at h
  · rename_i c rest
    split at h
    · obtain ⟨t, ht, rfl⟩ := Option.map_eq_some_iff.1 h
      have := scanDigits1_shorter _ _ ht
      have := scanSign_length rest
      simp; omega
    · obtain rfl := Option.some.inj h
      simp
  · obtain rfl := Option.some.inj h
    simp

/-- Reading a number takes some of the text. -/
theorem scanNumber_shorter (cs : Chars) (r : Numeral × Chars) (h : scanNumber cs = some r) :
    r.2.length < cs.length := by
  simp only [scanNumber, bind, Option.bind_eq_some_iff, pure, Option.some.injEq] at h
  obtain ⟨w, hw, f, hf, e, he, rfl⟩ := h
  have := scanMinus_length cs
  have := scanDigits1_shorter _ _ (Option.filter_eq_some_iff.1 hw).1
  have := scanFraction_length _ _ hf
  have := scanExponent_length _ _ he
  simp only; omega

/-- Each token takes some of the text, so reading all of them ends. -/
theorem nextToken_shorter (cs : Chars) (r : Token × Chars) (h : nextToken cs = some r) :
    r.2.length < cs.length := by
  unfold nextToken at h
  split at h
  case h_7 =>
    obtain ⟨t, ht, rfl⟩ := Option.map_eq_some_iff.1 h
    have := scanText_shorter _ _ ht
    simp; omega
  case h_11 =>
    obtain ⟨t, ht, rfl⟩ := Option.map_eq_some_iff.1 h
    exact scanNumber_shorter _ _ ht
  all_goals
    obtain rfl := Option.some.inj h
    simp only [List.length_cons]; omega

/-! ## The whole text -/

/-- All tokens of a text, or none if some part of it is no token. White space may stand
    between tokens. -/
def tokens (cs : Chars) : Option (List Token) :=
  match cs with
  | [] => some []
  | c :: rest =>
    if c.any isSpace then tokens rest
    else
      match h : nextToken (c :: rest) with
      | none => none
      | some r =>
        have := nextToken_shorter _ r h
        (tokens r.2).map (r.1 :: ·)
termination_by cs.length
decreasing_by
  · exact Nat.lt_succ_self _
  · assumption

end Coverage.Json
