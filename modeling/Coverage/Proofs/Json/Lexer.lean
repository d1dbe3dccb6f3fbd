/-
  Coverage.Proofs.Json.Lexer

  A value that was written out is cut into the tokens it was written from.

  `Value.written` is the document that a value spells out, and `Document.tokens` are the
  tokens of a document.  Lexing is said for a text with anything after it that cannot go on
  with its last token (`Ends`), so that the parts of a container can be put together
  (`tokens_renderAt`, by induction on the value along the printer).
-/

import Coverage.Proofs.Json.Strings
import Coverage.Proofs.Text.Decimal

namespace Coverage.Json

open Text.Decimal (ofNat ofInt)

/-! ## What a value is written as -/

/-- An integer as it is written. -/
def Numeral.ofInt (i : Int) : Numeral :=
  ⟨decide (i < 0), ofNat i.natAbs, none, none⟩

theorem Numeral.ofInt_negSucc (n : Nat) :
    ofInt (.negSucc n) = ⟨true, ofNat (n + 1), none, none⟩ := by
  have hnegative : decide (Int.negSucc n < 0) = true := decide_eq_true (Int.negSucc_lt_zero n)
  rw [Numeral.ofInt, hnegative]
  rfl

mutual

/-- The document that a value is written as. -/
def Value.written : Value → Document
  | .null => .null
  | .bool b => .bool b
  | .int i => .number (.ofInt i)
  | .real n => .number n
  | .text s => .text (pieces s)
  | .array items => .array (writtenItems items)
  | .object members => .object (writtenMembers members)

/-- The documents that the items of an array are written as. -/
def writtenItems : List Value → List Document
  | [] => []
  | v :: rest => v.written :: writtenItems rest

/-- The members that the members of an object are written as. -/
def writtenMembers : List (String × Value) → List (RawText × Document)
  | [] => []
  | (k, v) :: rest => (pieces k, v.written) :: writtenMembers rest

end

theorem writtenItems_eq (items : List Value) : writtenItems items = items.map Value.written := by
  induction items with
  | nil => rfl
  | cons v rest ih => rw [writtenItems, ih, List.map_cons]

theorem writtenMembers_eq (members : List (String × Value)) :
    writtenMembers members = members.map fun m => (pieces m.1, m.2.written) := by
  induction members with
  | nil => rfl
  | cons m rest ih => rw [writtenMembers, ih, List.map_cons]

mutual

/-- The tokens of a document. -/
def Document.tokens : Document → List Token
  | .null => [.null]
  | .bool b => [.bool b]
  | .number n => [.number n]
  | .text t => [.text t]
  | .array [] => [.arrayStart, .arrayEnd]
  | .array (d :: rest) => .arrayStart :: d.tokens ++ itemTokens rest ++ [.arrayEnd]
  | .object [] => [.objectStart, .objectEnd]
  | .object ((k, d) :: rest) =>
    .objectStart :: .text k :: .colon :: d.tokens ++ memberTokens rest ++ [.objectEnd]

/-- The tokens of the items of an array after its first. -/
def itemTokens : List Document → List Token
  | [] => []
  | d :: rest => .comma :: d.tokens ++ itemTokens rest

/-- The tokens of the members of an object after its first. -/
def memberTokens : List (RawText × Document) → List Token
  | [] => []
  | (k, d) :: rest => .comma :: .text k :: .colon :: d.tokens ++ memberTokens rest

end

/-! ## One token -/

theorem tokens_nil : tokens [] = some [] := by
  rw [tokens]

/-- Blank space before a token is passed over. -/
theorem tokens_space {c : Char} (h : isSpace c = true) (rest : Chars) :
    tokens (some c :: rest) = tokens rest := by
  rw [tokens, if_pos (by simpa using h)]

/-- The tokens of a text are its next one and those of what is left after it. -/
theorem tokens_next {c : Option Char} {cs rest : Chars} {t : Token}
    (hspace : c.any isSpace = false) (h : nextToken (c :: cs) = some (t, rest)) :
    tokens (c :: cs) = (tokens rest).map (t :: ·) := by
  rw [tokens, hspace, if_neg Bool.false_ne_true]
  split
  · rename_i hnone
    rw [h] at hnone
    cases hnone
  · rename_i r hr
    rw [h] at hr
    cases hr
    rfl

/-- The line break and the indent of the printer are blank space. -/
theorem tokens_newLine (level : Nat) (rest : List Char) :
    tokens ((newLine level ++ rest).map some) = tokens (rest.map some) := by
  have hblanks : ∀ n,
      tokens ((List.replicate n ' ' ++ rest).map some) = tokens (rest.map some) := by
    intro n
    induction n with
    | zero => rfl
    | succ n ih =>
      rw [List.replicate_succ, List.cons_append, List.map_cons, tokens_space (by decide), ih]
  rw [newLine, List.cons_append, List.map_cons, tokens_space (by decide), hblanks]

/-- A string between quotes is one token. -/
theorem tokens_quote (s : String) (rest : List Char) :
    tokens ((quote s ++ rest).map some) = (tokens (rest.map some)).map (.text (pieces s) :: ·) := by
  have hscan := scanText_escaped s.toList (rest.map some)
  have htext : (quote s ++ rest).map some
      = some '"' :: ((s.toList.flatMap escapeChar).map some ++ some '"' :: rest.map some) := by
    simp [quote]
  rw [htext]
  refine tokens_next (by decide) ?_
  rw [nextToken, hscan]
  rfl

/-! ## Numbers -/

/-- What may follow a value: the next line, or a comma. -/
def Ends (rest : List Char) : Prop :=
  ∃ c cs, rest = c :: cs ∧ (c = '\n' ∨ c = ',')

/-- Digits are read up to the first character that is none. -/
theorem scanDigits_append {ds : List Char} (hds : ∀ d ∈ ds, d.isDigit = true) {rest : Chars}
    (hrest : ∀ c cs, rest = some c :: cs → c.isDigit = false) :
    scanDigits (ds.map some ++ rest) = (ds, rest) := by
  induction ds with
  | nil =>
    rw [List.map_nil, List.nil_append, scanDigits.eq_def]
    split
    · rename_i c cs
      rw [hrest c cs rfl]
      rfl
    · rfl
  | cons d ds ih =>
    have htail := ih fun c hc => hds c (List.mem_cons_of_mem d hc)
    rw [List.map_cons, List.cons_append, scanDigits, if_pos (hds d List.mem_cons_self), htail]

/-- No number is written with a zero before its other digits. -/
theorem head_ofNat {n : Nat} (h : 0 < n) : ∀ d ∈ (ofNat n).head?, d ≠ '0' := by
  induction n using Nat.strongRecOn with
  | ind n ih =>
    by_cases hsmall : n < 10
    · have hdigit : ∀ m, m < 10 → 0 < m → Nat.digitChar m ≠ '0' := by decide
      rw [ofNat, Nat.toDigits_of_lt_base hsmall]
      intro d hd
      cases hd
      exact hdigit n hsmall h
    · obtain ⟨d, ds, hds, -⟩ := Text.Decimal.ofNat_eq_cons (n / 10)
      have hfirst := ih (n / 10) (by omega) (by omega)
      rw [hds] at hfirst
      rw [ofNat, Nat.toDigits_of_base_le (by decide) (by omega), ← ofNat, hds]
      exact hfirst

/-- The digits of a number begin with a zero only if it is zero. -/
theorem hasLeadingZero_ofNat (n : Nat) : hasLeadingZero (ofNat n) = false := by
  cases n with
  | zero => rfl
  | succ n =>
    have hfirst := head_ofNat (Nat.succ_pos n)
    obtain ⟨d, ds, hds, -⟩ := Text.Decimal.ofNat_eq_cons (n + 1)
    rw [hds] at hfirst ⊢
    have hd : d ≠ '0' := hfirst d rfl
    unfold hasLeadingZero
    split
    · rename_i heq
      exact absurd (List.cons.inj heq).1 hd
    · rfl

section Numbers

variable {rest : List Char} (hrest : Ends rest)

include hrest

theorem scanDigits_ofNat (n : Nat) :
    scanDigits ((ofNat n ++ rest).map some) = (ofNat n, rest.map some) := by
  obtain ⟨c, cs, rfl, hc⟩ := hrest
  rw [List.map_append]
  refine scanDigits_append (fun d hd => Text.Decimal.isDigit_of_mem_ofNat hd) ?_
  intro d ds hds
  cases hds
  rcases hc with rfl | rfl
  · rfl
  · rfl

theorem scanWhole_ofNat (n : Nat) :
    scanWhole ((ofNat n ++ rest).map some) = some (ofNat n, rest.map some) := by
  rw [scanWhole, scanDigits1, scanDigits_ofNat hrest]
  simp only [Text.Decimal.ofNat_ne_nil, if_false]
  rw [Option.filter_some, hasLeadingZero_ofNat]
  rfl

theorem scanFraction_ends : scanFraction (rest.map some) = some (none, rest.map some) := by
  obtain ⟨c, cs, rfl, rfl | rfl⟩ := hrest
  · rfl
  · rfl

theorem scanExponent_ends : scanExponent (rest.map some) = some (none, rest.map some) := by
  obtain ⟨c, cs, rfl, rfl | rfl⟩ := hrest
  · rfl
  · rfl

/-- What follows the sign of a whole number is read back as its digits; there is no fraction and
    no exponent, since `rest` does not go on with one. -/
theorem scanNumber_of_minus {cs : Chars} {negative : Bool} {n : Nat}
    (h : scanMinus cs = (negative, (ofNat n ++ rest).map some)) :
    scanNumber cs = some (⟨negative, ofNat n, none, none⟩, rest.map some) := by
  unfold scanNumber
  simp only [h, scanWhole_ofNat hrest, scanFraction_ends hrest, scanExponent_ends hrest,
    Option.bind_eq_bind, Option.bind_some]
  rfl

/-- A written integer is one number. -/
theorem scanNumber_ofInt (i : Int) :
    scanNumber ((ofInt i ++ rest).map some) = some (.ofInt i, rest.map some) := by
  cases i with
  | ofNat n =>
    -- A number without a minus begins with a digit, which is no sign.
    obtain ⟨d, ds, hds, hd⟩ := Text.Decimal.ofNat_eq_cons n
    have hminus : d ≠ '-' := Text.Decimal.ne_of_isDigit hd (by decide)
    have hsign : scanMinus ((ofNat n ++ rest).map some) = (false, (ofNat n ++ rest).map some) := by
      rw [hds, List.cons_append, List.map_cons, scanMinus.eq_def]
      split
      · rename_i heq
        exact absurd (Option.some.inj (List.cons.inj heq).1) hminus
      · rfl
    exact scanNumber_of_minus hrest hsign
  | negSucc n =>
    have hsign : scanMinus (('-' :: ofNat (n + 1) ++ rest).map some)
        = (true, (ofNat (n + 1) ++ rest).map some) := rfl
    rw [Numeral.ofInt_negSucc]
    exact scanNumber_of_minus hrest hsign

omit hrest in
/-- A whole number is printed from a minus or a digit on, and so is told from any other token. -/
theorem ofInt_eq_cons (i : Int) :
    ∃ c cs, ofInt i = c :: cs ∧ (c = '-' ∨ c.isDigit = true) := by
  cases i with
  | ofNat n =>
    obtain ⟨d, ds, hds, hd⟩ := Text.Decimal.ofNat_eq_cons n
    exact ⟨d, ds, hds, .inr hd⟩
  | negSucc n => exact ⟨'-', ofNat (n + 1), rfl, .inl rfl⟩

omit hrest in
/-- What begins with a minus sign or a digit is a number, or no token. -/
theorem nextToken_number {c : Char} (h : c = '-' ∨ c.isDigit = true) (cs : Chars) :
    nextToken (some c :: cs) = (scanNumber (some c :: cs)).map fun r => (.number r.1, r.2) := by
  have hne : ∀ d : Char, d ≠ '-' → d.isDigit = false → c ≠ d := by
    rintro d hminus hdigit rfl
    rcases h with rfl | hd
    · exact hminus rfl
    · rw [hd] at hdigit
      cases hdigit
  -- Every case but the last asks for a character that is neither.
  unfold nextToken
  split
  all_goals first
    | rfl
    | rename_i heq
      have hc := Option.some.inj (List.cons.inj heq).1
      exact absurd hc (hne _ (by decide) (by decide))

/-- A whole number that is printed is the token of that number. -/
theorem tokens_ofInt (i : Int) :
    tokens ((ofInt i ++ rest).map some)
      = (tokens (rest.map some)).map (.number (.ofInt i) :: ·) := by
  have hscan := scanNumber_ofInt hrest i
  obtain ⟨c, cs, hcs, hc⟩ := ofInt_eq_cons i
  rw [hcs, List.cons_append, List.map_cons] at hscan ⊢
  have hspace : isSpace c = false := by
    rcases hc with rfl | hd
    · rfl
    · have hne : ∀ b : Char, b.isDigit = false → c ≠ b := fun b hb =>
        Text.Decimal.ne_of_isDigit hd hb
      simp [isSpace, hne ' ' (by decide), hne '\t' (by decide), hne '\n' (by decide),
        hne '\r' (by decide)]
  refine tokens_next (by simpa using hspace) ?_
  rw [nextToken_number hc, hscan]
  rfl

end Numbers

/-! ## Values -/

mutual

/-- Whether all numbers in a value are integers. -/
def Value.Exact : Value → Prop
  | .real _ => False
  | .array items => ExactItems items
  | .object members => ExactMembers members
  | _ => True

/-- Whether all numbers in the items of an array are integers. -/
def ExactItems : List Value → Prop
  | [] => True
  | v :: rest => v.Exact ∧ ExactItems rest

/-- Whether all numbers in the members of an object are integers. -/
def ExactMembers : List (String × Value) → Prop
  | [] => True
  | (_, v) :: rest => v.Exact ∧ ExactMembers rest

end

theorem exactItems_iff {items : List Value} : ExactItems items ↔ ∀ v ∈ items, v.Exact := by
  induction items with
  | nil => simp [ExactItems]
  | cons v rest ih => rw [ExactItems, ih, List.forall_mem_cons]

theorem exactMembers_iff {members : List (String × Value)} :
    ExactMembers members ↔ ∀ m ∈ members, m.2.Exact := by
  induction members with
  | nil => simp [ExactMembers]
  | cons m rest ih => rw [ExactMembers, ih, List.forall_mem_cons]

/-- A character that is a token by itself. -/
theorem tokens_char {c : Char} {t : Token} (hspace : isSpace c = false)
    (h : ∀ cs, nextToken (some c :: cs) = some (t, cs)) (rest : List Char) :
    tokens ((c :: rest).map some) = (tokens (rest.map some)).map (t :: ·) :=
  tokens_next (by simpa using hspace) (h _)

theorem tokens_colon (rest : List Char) :
    tokens ((':' :: ' ' :: rest).map some) = (tokens (rest.map some)).map (.colon :: ·) := by
  rw [tokens_char (by decide) (fun _ => rfl), List.map_cons, tokens_space (by decide)]

/-- A number or a name ends where the printer breaks the line. -/
theorem ends_newLine (level : Nat) (rest : List Char) : Ends (newLine level ++ rest) :=
  ⟨'\n', List.replicate (2 * level) ' ' ++ rest, rfl, .inl rfl⟩

/-- Whatever is printed after an item ends it. -/
theorem ends_renderItems (level : Nat) (items : List Value) {rest : List Char} (h : Ends rest) :
    Ends (Value.renderItems level items ++ rest) := by
  cases items with
  | nil => exact h
  | cons v items =>
    refine ⟨',', newLine level ++ v.renderAt level ++ Value.renderItems level items ++ rest, ?_,
      .inr rfl⟩
    simp [Value.renderItems]

/-- Whatever is printed after a member ends it. -/
theorem ends_renderMembers (level : Nat) (members : List (String × Value)) {rest : List Char}
    (h : Ends rest) : Ends (Value.renderMembers level members ++ rest) := by
  cases members with
  | nil => exact h
  | cons m members =>
    obtain ⟨k, v⟩ := m
    refine ⟨',', newLine level ++ quote k ++ [':', ' '] ++ v.renderAt level
      ++ Value.renderMembers level members ++ rest, ?_, .inr rfl⟩
    simp [Value.renderMembers]

mutual

/-- A value that was written out is cut into the tokens of what was written. -/
theorem tokens_renderAt (level : Nat) : ∀ (v : Value), v.Exact → ∀ {rest : List Char}, Ends rest →
    tokens ((v.renderAt level ++ rest).map some)
      = (tokens (rest.map some)).map (v.written.tokens ++ ·)
  | .null, _, rest, _ => tokens_next (by decide) rfl
  | .bool true, _, rest, _ => tokens_next (by decide) rfl
  | .bool false, _, rest, _ => tokens_next (by decide) rfl
  | .int i, _, rest, hrest => tokens_ofInt hrest i
  | .real _, h, _, _ => False.elim h
  | .text s, _, rest, _ => tokens_quote s rest
  | .array [], _, rest, _ => by
    show tokens (('[' :: ']' :: rest).map some) = _
    rw [tokens_char (by decide) (fun _ => rfl), tokens_char (by decide) (fun _ => rfl),
      Option.map_map]
    rfl
  | .array (v :: items), h, rest, hrest => by
    have hend : tokens ((newLine level ++ (']' :: rest)).map some)
        = (tokens (rest.map some)).map (.arrayEnd :: ·) := by
      rw [tokens_newLine, tokens_char (by decide) (fun _ => rfl)]
    -- From the end to the beginning: each part ends where the next one begins.
    have hitems := tokens_renderItems (level + 1) items h.2 (ends_newLine level (']' :: rest))
    have hfirst := tokens_renderAt (level + 1) v h.1
      (ends_renderItems (level + 1) items (ends_newLine level (']' :: rest)))
    have htext : (Value.array (v :: items)).renderAt level ++ rest
        = '[' :: (newLine (level + 1) ++ (v.renderAt (level + 1)
          ++ (Value.renderItems (level + 1) items ++ (newLine level ++ (']' :: rest))))) := by
      simp [Value.renderAt]
    rw [htext, tokens_char (by decide) (fun _ => rfl), tokens_newLine, hfirst, hitems, hend,
      Option.map_map, Option.map_map, Option.map_map]
    congr 1
    funext ts
    simp [Value.written, writtenItems, Document.tokens]
  | .object [], _, rest, _ => by
    show tokens (('\x7b' :: '\x7d' :: rest).map some) = _
    rw [tokens_char (by decide) (fun _ => rfl), tokens_char (by decide) (fun _ => rfl),
      Option.map_map]
    rfl
  | .object ((k, v) :: members), h, rest, hrest => by
    have hend : tokens ((newLine level ++ ('\x7d' :: rest)).map some)
        = (tokens (rest.map some)).map (.objectEnd :: ·) := by
      rw [tokens_newLine, tokens_char (by decide) (fun _ => rfl)]
    have hmembers := tokens_renderMembers (level + 1) members h.2
      (ends_newLine level ('\x7d' :: rest))
    have hfirst := tokens_renderAt (level + 1) v h.1
      (ends_renderMembers (level + 1) members (ends_newLine level ('\x7d' :: rest)))
    have htext : (Value.object ((k, v) :: members)).renderAt level ++ rest
        = '\x7b' :: (newLine (level + 1) ++ (quote k ++ (':' :: ' ' :: (v.renderAt (level + 1)
          ++ (Value.renderMembers (level + 1) members
            ++ (newLine level ++ ('\x7d' :: rest))))))) := by
      simp [Value.renderAt]
    rw [htext, tokens_char (by decide) (fun _ => rfl), tokens_newLine, tokens_quote, tokens_colon,
      hfirst, hmembers, hend, Option.map_map, Option.map_map, Option.map_map, Option.map_map,
      Option.map_map]
    congr 1
    funext ts
    simp [Value.written, writtenMembers, Document.tokens]

/-- The items after the first one are printed each after a comma and a line break. -/
theorem tokens_renderItems (level : Nat) : ∀ (items : List Value), ExactItems items →
    ∀ {rest : List Char}, Ends rest →
      tokens ((Value.renderItems level items ++ rest).map some)
        = (tokens (rest.map some)).map (itemTokens (writtenItems items) ++ ·)
  | [], _, rest, _ => by
    show tokens (rest.map some) = (tokens (rest.map some)).map fun ts => [] ++ ts
    simp
  | v :: items, h, rest, hrest => by
    have hitems := tokens_renderItems level items h.2 hrest
    have hfirst := tokens_renderAt level v h.1 (ends_renderItems level items hrest)
    -- Right to left the text is a comma, blank space, the item, and what is printed after it.
    have htext : Value.renderItems level (v :: items) ++ rest
        = ',' :: (newLine level ++ (v.renderAt level
          ++ (Value.renderItems level items ++ rest))) := by
      simp [Value.renderItems]
    rw [htext, tokens_char (by decide) (fun _ => rfl), tokens_newLine, hfirst, hitems,
      Option.map_map, Option.map_map]
    congr 1
    funext ts
    simp [writtenItems, itemTokens]

/-- The members after the first one are printed each after a comma and a line break. -/
theorem tokens_renderMembers (level : Nat) : ∀ (members : List (String × Value)),
    ExactMembers members → ∀ {rest : List Char}, Ends rest →
      tokens ((Value.renderMembers level members ++ rest).map some)
        = (tokens (rest.map some)).map (memberTokens (writtenMembers members) ++ ·)
  | [], _, rest, _ => by
    show tokens (rest.map some) = (tokens (rest.map some)).map fun ts => [] ++ ts
    simp
  | (k, v) :: members, h, rest, hrest => by
    have hmembers := tokens_renderMembers level members h.2 hrest
    have hfirst := tokens_renderAt level v h.1 (ends_renderMembers level members hrest)
    -- As for items, with the key and a colon before each value.
    have htext : Value.renderMembers level ((k, v) :: members) ++ rest
        = ',' :: (newLine level ++ (quote k ++ (':' :: ' ' :: (v.renderAt level
          ++ (Value.renderMembers level members ++ rest))))) := by
      simp [Value.renderMembers]
    rw [htext, tokens_char (by decide) (fun _ => rfl), tokens_newLine, tokens_quote, tokens_colon,
      hfirst, hmembers, Option.map_map, Option.map_map, Option.map_map, Option.map_map]
    congr 1
    funext ts
    simp [writtenMembers, memberTokens]

end

/-- The text of a value is cut into the tokens of what was written. -/
theorem tokens_render {v : Value} (h : v.Exact) :
    tokens (v.render.map some) = some v.written.tokens := by
  rw [Value.render, tokens_renderAt 0 v h ⟨'\n', [], rfl, .inl rfl⟩, List.map_cons, List.map_nil,
    tokens_space (by decide), tokens_nil, Option.map_some, List.append_nil]

end Coverage.Json
