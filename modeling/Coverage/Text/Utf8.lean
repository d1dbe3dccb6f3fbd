/-
  Coverage.Text.Utf8

  Bytes and characters.

  `encode` writes characters as UTF-8. `decode` reads any bytes: a well-formed
  sequence becomes its character, and each longest run of bytes that begins a
  character without finishing it, or can begin none, becomes one `none`. Every
  reader of bytes in this library is a question about that list:

    * `text?` accepts only bytes without such a gap;
    * `lossy` puts the replacement character into every gap.

  `decode_encode` says that written characters are read back without gaps.
-/

namespace Coverage

/-- Contents of a file or of an archived resource. -/
abbrev Bytes := List UInt8

namespace Text.Utf8

/-! ## Writing -/

/-- The one to four bytes of a character. -/
def encodeChar (c : Char) : Bytes :=
  let n := c.toNat
  if n < 0x80 then
    [n.toUInt8]
  else if n < 0x800 then
    [(0xC0 + n / 0x40).toUInt8, (0x80 + n % 0x40).toUInt8]
  else if n < 0x10000 then
    [(0xE0 + n / 0x1000).toUInt8, (0x80 + n / 0x40 % 0x40).toUInt8, (0x80 + n % 0x40).toUInt8]
  else
    [(0xF0 + n / 0x40000).toUInt8, (0x80 + n / 0x1000 % 0x40).toUInt8,
      (0x80 + n / 0x40 % 0x40).toUInt8, (0x80 + n % 0x40).toUInt8]

/-- Characters written one after another. -/
def encode (cs : List Char) : Bytes :=
  cs.flatMap encodeChar

/-- The bytes of a string. -/
def ofString (s : String) : Bytes :=
  encode s.toList

/-! ## Reading -/

/-- A character whose first bytes have been read: the bits so far, how many bytes are
    still missing, and the range the next of them must lie in. -/
structure Partial where
  bits : Nat
  missing : Nat
  low : Nat
  high : Nat

/-- What a byte says when no character is open. -/
inductive Lead where
  /-- It is a character of its own. -/
  | whole (c : Char)
  /-- It opens a longer character. -/
  | opens (p : Partial)
  /-- No character begins with it. -/
  | invalid

/-- The lead bytes. The ranges of the second byte leave out overlong forms, surrogates and
    values above the last character. -/
def lead (b : Nat) : Lead :=
  if b < 0x80 then .whole (Char.ofNat b)
  else if b < 0xC2 then .invalid
  else if b < 0xE0 then .opens ⟨b - 0xC0, 1, 0x80, 0xBF⟩
  else if b = 0xE0 then .opens ⟨0, 2, 0xA0, 0xBF⟩
  else if b = 0xED then .opens ⟨0xD, 2, 0x80, 0x9F⟩
  else if b < 0xF0 then .opens ⟨b - 0xE0, 2, 0x80, 0xBF⟩
  else if b = 0xF0 then .opens ⟨0, 3, 0x90, 0xBF⟩
  else if b < 0xF4 then .opens ⟨b - 0xF0, 3, 0x80, 0xBF⟩
  else if b = 0xF4 then .opens ⟨4, 3, 0x80, 0x8F⟩
  else .invalid

/-- Reads a byte with no character open: what it completes, and what is open after it. -/
def begin (b : Nat) : List (Option Char) × Option Partial :=
  match lead b with
  | .whole c => ([some c], none)
  | .opens p => ([], some p)
  | .invalid => ([none], none)

/-- Reads one byte. A byte that does not continue the open character ends it as a gap and
    is then read as a lead byte. -/
def step : Option Partial → Nat → List (Option Char) × Option Partial
  | none, b => begin b
  | some p, b =>
    if p.low ≤ b ∧ b ≤ p.high then
      -- Six more bits of the open character.
      let bits := p.bits * 0x40 + (b - 0x80)
      if p.missing ≤ 1 then ([some (Char.ofNat bits)], none)
      else ([], some ⟨bits, p.missing - 1, 0x80, 0xBF⟩)
    else
      let r := begin b
      (none :: r.1, r.2)

/-- Reads on, with the character that is open, if any. One still open at the end is a gap. -/
def decodeFrom : Option Partial → Bytes → List (Option Char)
  | none, [] => []
  | some _, [] => [none]
  | state, b :: rest =>
    let r := step state b.toNat
    r.1 ++ decodeFrom r.2 rest

/-- The characters of some bytes, with `none` for every gap. -/
def decode (bytes : Bytes) : List (Option Char) :=
  decodeFrom none bytes

/-- The text of bytes that are well-formed throughout. -/
def text? (bytes : Bytes) : Option String :=
  ((decode bytes).mapM id).map String.ofList

/-- The text of any bytes, each gap shown as the replacement character. -/
def lossy (bytes : Bytes) : String :=
  String.ofList ((decode bytes).map (·.getD '\uFFFD'))

/-! ## Reading what was written -/

theorem toNat_toUInt8_of_lt {n : Nat} (h : n < 0x100) : n.toUInt8.toNat = n := by
  simp [Nat.toUInt8]; omega

theorem decodeFrom_cons (state : Option Partial) (b : UInt8) (rest : Bytes) :
    decodeFrom state (b :: rest)
      = (step state b.toNat).1 ++ decodeFrom (step state b.toNat).2 rest := by
  cases state <;> rfl

/-- Reading a byte that opens a character. -/
theorem decodeFrom_opens {n : Nat} {p : Partial} {rest : Bytes} (hn : n < 0x100)
    (h : lead n = .opens p) : decodeFrom none (n.toUInt8 :: rest) = decodeFrom (some p) rest := by
  rw [decodeFrom_cons, toNat_toUInt8_of_lt hn]
  simp [step, begin, h]

/-- Reading a continuation byte that is not the last of its character. -/
theorem decodeFrom_more {n bits missing low high : Nat} {rest : Bytes} (hn : n < 0x100)
    (hl : low ≤ n) (hh : n ≤ high) (hm : 1 < missing) :
    decodeFrom (some ⟨bits, missing, low, high⟩) (n.toUInt8 :: rest)
      = decodeFrom (some ⟨bits * 0x40 + (n - 0x80), missing - 1, 0x80, 0xBF⟩) rest := by
  rw [decodeFrom_cons, toNat_toUInt8_of_lt hn]
  simp [step, hl, hh, Nat.not_le.2 hm]

/-- Reading the last byte of a character. -/
theorem decodeFrom_last {n bits low high : Nat} {rest : Bytes} (hn : n < 0x100)
    (hl : low ≤ n) (hh : n ≤ high) :
    decodeFrom (some ⟨bits, 1, low, high⟩) (n.toUInt8 :: rest)
      = some (Char.ofNat (bits * 0x40 + (n - 0x80))) :: decodeFrom none rest := by
  rw [decodeFrom_cons, toNat_toUInt8_of_lt hn]
  simp [step, hl, hh]

/-- A character is read from its bytes, whatever follows them. -/
theorem decodeFrom_encodeChar (c : Char) (rest : Bytes) :
    decodeFrom none (encodeChar c ++ rest) = some c :: decodeFrom none rest := by
  have hc : c.toNat < 0xD800 ∨ (0xDFFF < c.toNat ∧ c.toNat < 0x110000) := c.valid
  have hof : Char.ofNat c.toNat = c := Char.ofNat_toNat c
  unfold encodeChar
  generalize c.toNat = n at hc hof
  simp only
  -- One byte.
  by_cases h1 : n < 0x80
  · rw [if_pos h1]
    have hlead : lead n = .whole (Char.ofNat n) := by unfold lead; rw [if_pos h1]
    rw [List.cons_append, List.nil_append, decodeFrom_cons, toNat_toUInt8_of_lt (by omega)]
    simp [step, begin, hlead, hof]
  · rw [if_neg h1]
    -- Two bytes.
    by_cases h2 : n < 0x800
    · rw [if_pos h2]
      have hlead : lead (0xC0 + n / 0x40) = .opens ⟨n / 0x40, 1, 0x80, 0xBF⟩ := by
        unfold lead
        rw [if_neg (by omega), if_neg (by omega), if_pos (by omega), Nat.add_sub_cancel_left]
      have hv : n / 0x40 * 0x40 + (0x80 + n % 0x40 - 0x80) = n := by omega
      rw [List.cons_append, List.cons_append, List.nil_append, decodeFrom_opens (by omega) hlead,
        decodeFrom_last (by omega) (by omega) (by omega), hv, hof]
    · rw [if_neg h2]
      -- Three bytes: the second one's range hangs on the first.
      by_cases h3 : n < 0x10000
      · rw [if_pos h3]
        have hlead : ∃ low high, lead (0xE0 + n / 0x1000) = .opens ⟨n / 0x1000, 2, low, high⟩
            ∧ low ≤ 0x80 + n / 0x40 % 0x40 ∧ 0x80 + n / 0x40 % 0x40 ≤ high := by
          unfold lead
          rw [if_neg (by omega), if_neg (by omega), if_neg (by omega)]
          by_cases a : 0xE0 + n / 0x1000 = 0xE0
          · rw [if_pos a]
            exact ⟨_, _, by rw [show n / 0x1000 = 0 by omega], by omega, by omega⟩
          · rw [if_neg a]
            by_cases b : 0xE0 + n / 0x1000 = 0xED
            · rw [if_pos b]
              exact ⟨_, _, by rw [show n / 0x1000 = 0xD by omega], by omega, by omega⟩
            · rw [if_neg b, if_pos (by omega), Nat.add_sub_cancel_left]
              exact ⟨_, _, rfl, by omega, by omega⟩
        obtain ⟨low, high, hlead, hlow, hhigh⟩ := hlead
        have hv : (n / 0x1000 * 0x40 + (0x80 + n / 0x40 % 0x40 - 0x80)) * 0x40
            + (0x80 + n % 0x40 - 0x80) = n := by omega
        rw [List.cons_append, List.cons_append, List.cons_append, List.nil_append,
          decodeFrom_opens (by omega) hlead, decodeFrom_more (by omega) hlow hhigh (by decide),
          decodeFrom_last (by omega) (by omega) (by omega), hv, hof]
      · -- Four bytes.
        rw [if_neg h3]
        have hlead : ∃ low high, lead (0xF0 + n / 0x40000) = .opens ⟨n / 0x40000, 3, low, high⟩
            ∧ low ≤ 0x80 + n / 0x1000 % 0x40 ∧ 0x80 + n / 0x1000 % 0x40 ≤ high := by
          unfold lead
          rw [if_neg (by omega), if_neg (by omega), if_neg (by omega), if_neg (by omega),
            if_neg (by omega), if_neg (by omega)]
          by_cases a : 0xF0 + n / 0x40000 = 0xF0
          · rw [if_pos a]
            exact ⟨_, _, by rw [show n / 0x40000 = 0 by omega], by omega, by omega⟩
          · rw [if_neg a]
            by_cases b : 0xF0 + n / 0x40000 < 0xF4
            · rw [if_pos b, Nat.add_sub_cancel_left]
              exact ⟨_, _, rfl, by omega, by omega⟩
            · rw [if_neg b, if_pos (by omega)]
              exact ⟨_, _, by rw [show n / 0x40000 = 4 by omega], by omega, by omega⟩
        obtain ⟨low, high, hlead, hlow, hhigh⟩ := hlead
        have hv : ((n / 0x40000 * 0x40 + (0x80 + n / 0x1000 % 0x40 - 0x80)) * 0x40
            + (0x80 + n / 0x40 % 0x40 - 0x80)) * 0x40 + (0x80 + n % 0x40 - 0x80) = n := by omega
        rw [List.cons_append, List.cons_append, List.cons_append, List.cons_append,
          List.nil_append, decodeFrom_opens (by omega) hlead,
          decodeFrom_more (by omega) hlow hhigh (by decide),
          decodeFrom_more (by omega) (by omega) (by omega) (by decide),
          decodeFrom_last (by omega) (by omega) (by omega), hv, hof]

/-- Reading gives back what was written, without gaps. -/
theorem decode_encode (cs : List Char) : decode (encode cs) = cs.map some := by
  induction cs with
  | nil => rfl
  | cons c rest ih =>
    have : encode (c :: rest) = encodeChar c ++ encode rest := rfl
    rw [decode, this, decodeFrom_encodeChar, List.map_cons, ← ih, decode]

/-- The bytes of a string are well-formed and spell out that string. -/
theorem text?_ofString (s : String) : text? (ofString s) = some s := by
  have h (cs : List Char) : (cs.map some).mapM (id : Option Char → Option Char) = some cs := by
    induction cs with
    | nil => rfl
    | cons c rest ih => simp [ih]
  rw [text?, ofString, decode_encode, h, Option.map_some, String.ofList_toList]

end Text.Utf8
end Coverage
