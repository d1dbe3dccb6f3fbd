/-
  Coverage.Proofs.Json.Machine

  The machine that reads tokens gives back the document whose tokens they are.

  Where a value may come, the machine takes all tokens of a document and is then in the
  state after that value, whatever is open around it (`foldlM_tokens`).
-/

import Coverage.Proofs.Json.Lexer

namespace Coverage.Json

namespace Document

open State (step? begin? ofValue)

/-- The first token of a document may stand where its value may. -/
theorem step?_firstItem {t : Token} (h : t ≠ .arrayEnd) (stack : List Frame) :
    step? (.firstItem stack) t = step? (.value (.array [] :: stack)) t := by
  cases t with
  | arrayEnd => exact absurd rfl h
  | _ => rfl

/-- A document begins with a token, and not with the end of an array: so an array that is not
    empty is told from an empty one by its first token. -/
theorem tokens_eq_cons (d : Document) : ∃ t ts, d.tokens = t :: ts ∧ t ≠ .arrayEnd := by
  rcases d with _ | b | n | t | (_ | ⟨d, rest⟩) | (_ | ⟨⟨k, d⟩, rest⟩)
  all_goals exact ⟨_, _, rfl, by simp⟩

/-- Before its first item an array reads a document as after a comma. -/
theorem foldlM_firstItem (d : Document) (ts : List Token) (stack : List Frame) :
    (d.tokens ++ ts).foldlM step? (.firstItem stack)
      = (d.tokens ++ ts).foldlM step? (.value (.array [] :: stack)) := by
  obtain ⟨t, rest, hd, ht⟩ := tokens_eq_cons d
  rw [hd, List.cons_append, List.foldlM_cons, List.foldlM_cons, step?_firstItem ht]

mutual

/-- The tokens of a document are read as that document. -/
theorem foldlM_tokens : ∀ (d : Document) (stack : List Frame),
    d.tokens.foldlM step? (.value stack) = some (ofValue d stack)
  | .null, _ => rfl
  | .bool _, _ => rfl
  | .number _, _ => rfl
  | .text _, _ => rfl
  | .array [], _ => rfl
  | .array (d :: items), stack => by
    have hfirst := foldlM_tokens d (.array [] :: stack)
    have hitems := foldlM_itemTokens items [d] stack
    -- The items are held in reverse until the bracket puts them in order.
    have hopen : step? (.value stack) .arrayStart = some (.firstItem stack) := rfl
    have hclose : step? (.afterItem (items.reverse ++ [d]) stack) .arrayEnd
        = some (ofValue (.array (items.reverse ++ [d]).reverse) stack) := rfl
    rw [tokens, List.cons_append, List.cons_append, List.foldlM_cons, hopen, Option.bind_eq_bind,
      Option.bind_some, List.append_assoc, foldlM_firstItem, List.foldlM_append, hfirst,
      Option.bind_eq_bind, Option.bind_some, List.foldlM_append, ofValue, hitems,
      Option.bind_eq_bind, Option.bind_some, List.foldlM_cons, hclose]
    simp
  | .object [], _ => rfl
  | .object ((k, d) :: members), stack => by
    have hfirst := foldlM_tokens d (.object [] k :: stack)
    have hmembers := foldlM_memberTokens members [(k, d)] stack
    have hopen : step? (.value stack) .objectStart = some (.firstKey stack) := rfl
    have hkey : step? (.firstKey stack) (.text k) = some (.colon [] k stack) := rfl
    have hcolon : step? (.colon [] k stack) .colon = some (.value (.object [] k :: stack)) := rfl
    have hclose : step? (.afterMember (members.reverse ++ [(k, d)]) stack) .objectEnd
        = some (ofValue (.object (members.reverse ++ [(k, d)]).reverse) stack) := rfl
    rw [tokens]
    simp only [List.cons_append, List.foldlM_cons, hopen, hkey, hcolon, Option.bind_eq_bind,
      Option.bind_some, List.append_assoc]
    rw [List.foldlM_append, hfirst, Option.bind_eq_bind, Option.bind_some, List.foldlM_append,
      ofValue, hmembers, Option.bind_eq_bind, Option.bind_some, List.foldlM_cons, hclose]
    simp

/-- After an item the machine takes the items that follow. -/
theorem foldlM_itemTokens : ∀ (items acc : List Document) (stack : List Frame),
    (itemTokens items).foldlM step? (.afterItem acc stack)
      = some (.afterItem (items.reverse ++ acc) stack)
  | [], _, _ => rfl
  | d :: items, acc, stack => by
    have hfirst := foldlM_tokens d (.array acc :: stack)
    have hitems := foldlM_itemTokens items (d :: acc) stack
    have hcomma : step? (.afterItem acc stack) .comma = some (.value (.array acc :: stack)) := rfl
    rw [itemTokens, List.cons_append, List.foldlM_cons, hcomma, Option.bind_eq_bind,
      Option.bind_some, List.foldlM_append, hfirst, Option.bind_eq_bind, Option.bind_some, ofValue,
      hitems]
    simp

/-- After a member the machine takes the members that follow. -/
theorem foldlM_memberTokens : ∀ (members acc : List (RawText × Document)) (stack : List Frame),
    (memberTokens members).foldlM step? (.afterMember acc stack)
      = some (.afterMember (members.reverse ++ acc) stack)
  | [], _, _ => rfl
  | (k, d) :: members, acc, stack => by
    have hfirst := foldlM_tokens d (.object acc k :: stack)
    have hmembers := foldlM_memberTokens members ((k, d) :: acc) stack
    have hcomma : step? (.afterMember acc stack) .comma = some (.nextKey acc stack) := rfl
    have hkey : step? (.nextKey acc stack) (.text k) = some (.colon acc k stack) := rfl
    have hcolon : step? (.colon acc k stack) .colon = some (.value (.object acc k :: stack)) := rfl
    rw [memberTokens]
    simp only [List.cons_append, List.foldlM_cons, hcomma, hkey, hcolon, Option.bind_eq_bind,
      Option.bind_some]
    rw [List.foldlM_append, hfirst, Option.bind_eq_bind, Option.bind_some, ofValue, hmembers]
    simp

end

/-- The tokens of a document spell it out. -/
theorem ofTokens?_tokens (d : Document) : ofTokens? d.tokens = some d := by
  rw [ofTokens?, foldlM_tokens]
  rfl

end Document

/-- The text of a value spells out the document that it is written as. -/
theorem ofChars?_render {v : Value} (h : v.Exact) :
    Document.ofChars? (v.render.map some) = some v.written := by
  rw [Document.ofChars?, tokens_render h, Option.bind_some, Document.ofTokens?_tokens]

end Coverage.Json
