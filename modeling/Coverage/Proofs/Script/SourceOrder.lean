/-
  Coverage.Proofs.Script.SourceOrder

  The children of a block, a statement or an expression, in order of position.

  `StandsIn` says where a child of an object stands: at a key, or at a place in the array at a
  key.  Key by key the members of an object give exactly these places, each once
  (`mem_placesIn`, `pairwise_placesIn`), and a stable sort by position leaves the places of one
  position as they came (`pairwise_sortedPlaces`).  An order in which no two children tie does
  not depend on the places (`eq_of_apart`).

  All this is about objects whose members are in order of key.  The values that text spells out
  are such objects all the way down, so it holds at every node of a script that is read from
  text (`Program.Origin.children_ofText`).
-/

import Coverage.Proofs.Json.Spelled
import Coverage.Proofs.Keyed
import Coverage.Proofs.Ranking
import Coverage.Proofs.Script.Origins
import Coverage.Proofs.Text.ByteOrder
import Mathlib.Data.List.Nodup
import Mathlib.Data.List.Perm.Basic

namespace Coverage.Script

open Json (Value)
open Text.Utf8 (ofString ofString_lt_ofString)

/-! ## Places -/

/-- Where a value stands in an object: under a key, and at an index if the key has an array. -/
structure Place where
  key : String
  index : Nat
  child : Value

/-- A value with a type stands at a place in an object, under a key that may hold children. -/
inductive StandsIn (v : Value) : Place → Prop
  | member {key : String} {c : Value} (hkey : key ∉ attributeKeys) (hget : v.get? key = some c)
      (htype : c.hasKey "type") : StandsIn v ⟨key, 0, c⟩
  | item {key : String} {items : List Value} {i : Nat} {c : Value} (hkey : key ∉ attributeKeys)
      (hget : v.get? key = some (.array items)) (hitem : items[i]? = some c)
      (htype : c.hasKey "type") : StandsIn v ⟨key, i, c⟩

/-- The line and the column a value begins at, on `line` if it has no line of its own. -/
def startOf (line : Nat) (v : Value) : Nat × Nat :=
  ((startLine? v).getD line, startColumn v)

/-- A place comes before another one by the position of what stands there, then by the bytes of
    the key, then by the index. -/
inductive Place.Before (line : Nat) (p q : Place) : Prop
  | line (h : (startOf line p.child).1 < (startOf line q.child).1)
  | column (hline : (startOf line p.child).1 = (startOf line q.child).1)
      (h : (startOf line p.child).2 < (startOf line q.child).2)
  | key (hstart : startOf line p.child = startOf line q.child)
      (h : ofString p.key < ofString q.key)
  | index (hstart : startOf line p.child = startOf line q.child) (hkey : p.key = q.key)
      (h : p.index < q.index)

/-- No two children of an object begin at one position. -/
def Apart (line : Nat) (v : Value) : Prop :=
  ∀ p q, StandsIn v p → isNode p.child → StandsIn v q → isNode q.child →
    startOf line p.child = startOf line q.child → p = q

/-- Two objects have the same children, wherever these stand. -/
def SameChildren (v w : Value) : Prop :=
  ∀ c, isNode c → ((∃ p, StandsIn v p ∧ p.child = c) ↔ ∃ p, StandsIn w p ∧ p.child = c)

/-- The members of an object are in order of key, as they are in a map. -/
def KeysAscend (v : Value) : Prop :=
  ∀ ms, v.members? = some ms → Keyed.Ascending ms

/-- A block, a statement or an expression has these parts. -/
inductive Construct.Lists {α : Type} (parts : List α) : Construct α → Prop
  | block : Lists parts (.block parts)
  | statement : Lists parts (.statement parts)
  | expression : Lists parts (.expression parts)

/-! ## The places of an object, key by key -/

/-- The places under a key that holds `w`. -/
def placesUnder (key : String) (w : Value) : List Place :=
  match w.items? with
  | some items => (items.zipIdx.filter (·.1.hasKey "type")).map fun x => ⟨key, x.2, x.1⟩
  | none => if w.hasKey "type" then [⟨key, 0, w⟩] else []

/-- The places of an object, key by key. -/
def placesIn (v : Value) : List Place :=
  ((v.members?.getD []).filter fun m => !attributeKeys.contains m.1).flatMap
    fun m => placesUnder m.1 m.2

/-- What stands at the places under a key are the typed nodes there. -/
theorem map_child_placesUnder (key : String) (w : Value) :
    (placesUnder key w).map Place.child = typedNodes w := by
  unfold placesUnder typedNodes
  cases w.items? with
  | none => exact apply_ite (List.map Place.child) _ _ _
  | some items =>
    have hfilter := List.filter_map (p := (·.hasKey "type")) (f := Prod.fst) (l := items.zipIdx)
    rw [List.zipIdx_map_fst] at hfilter
    simp only [List.map_map, hfilter]
    rfl

/-- What stands at the places of an object are its child nodes, in the same order. -/
theorem map_child_placesIn (v : Value) : (placesIn v).map Place.child = childNodes v := by
  simp only [placesIn, childNodes, List.map_flatMap, map_child_placesUnder]

theorem key_of_mem_placesUnder {key : String} {w : Value} {p : Place}
    (h : p ∈ placesUnder key w) : p.key = key := by
  unfold placesUnder at h
  split at h
  · obtain ⟨_, -, rfl⟩ := List.mem_map.1 h
    rfl
  · split at h
    · obtain rfl := List.mem_singleton.1 h
      rfl
    · cases h

/-- What has a key is no array. -/
theorem items?_of_hasKey {w : Value} {key : String} (h : w.hasKey key) : w.items? = none := by
  cases w with
  | array => cases h
  | _ => rfl

/-- A value stands at a place if the place is one of those under its key. -/
theorem standsIn_iff {v : Value} {p : Place} :
    StandsIn v p ↔ p.key ∉ attributeKeys
      ∧ ∃ w, v.get? p.key = some w ∧ p ∈ placesUnder p.key w := by
  constructor
  · rintro (⟨hkey, hget, htype⟩ | ⟨hkey, hget, hitem, htype⟩)
    · refine ⟨hkey, _, hget, ?_⟩
      rw [placesUnder, items?_of_hasKey htype, if_pos htype]
      exact List.mem_singleton_self _
    · refine ⟨hkey, _, hget, List.mem_map.2 ⟨(_, _), List.mem_filter.2 ⟨?_, htype⟩, rfl⟩⟩
      exact List.mem_zipIdx_iff_getElem?.2 hitem
  · rintro ⟨hkey, w, hget, h⟩
    obtain ⟨key, index, c⟩ := p
    -- What is under the key is an array with the value as an item, or the value itself.
    cases w with
    | array items =>
      obtain ⟨⟨d, i⟩, hmem, heq⟩ := List.mem_map.1 h
      cases heq
      obtain ⟨hitem, htype⟩ := List.mem_filter.1 hmem
      exact .item hkey hget (List.mem_zipIdx_iff_getElem?.1 hitem) htype
    | object ms =>
      change _ ∈ ite _ _ _ at h
      split at h
      · rename_i htype
        cases List.mem_singleton.1 h
        exact .member hkey hget htype
      · cases h
    | _ => cases h

/-- Key by key all places of an object are found, and no others. -/
theorem mem_placesIn {v : Value} (hkeys : KeysAscend v) {p : Place} :
    p ∈ placesIn v ↔ StandsIn v p := by
  -- A key stands once, so what is found under it is all that there is.
  have hget {ms : List (String × Value)} (hms : v.members? = some ms) {key : String} {w : Value} :
      v.get? key = some w ↔ (key, w) ∈ ms := by
    have hdistinct : (ms.map Prod.fst).Nodup :=
      List.pairwise_map.2 ((hkeys ms hms).imp fun hab => String.ne_of_lt hab)
    rw [Value.get?, hms]
    constructor
    · intro h
      obtain ⟨_, _, rfl, -⟩ := List.lookup_eq_some_iff.1 h
      simp
    · exact Keyed.lookup_of_mem hdistinct
  rw [standsIn_iff, placesIn]
  cases hms : v.members? with
  | none => simp [Value.get?, hms]
  | some ms =>
    simp only [Option.getD_some, List.mem_flatMap, List.mem_filter, hget hms]
    constructor
    · rintro ⟨⟨key, w⟩, ⟨hmem, hkey⟩, hp⟩
      obtain rfl := key_of_mem_placesUnder hp
      exact ⟨by simpa using hkey, w, hmem, hp⟩
    · rintro ⟨hkey, w, hmem, hp⟩
      exact ⟨(p.key, w), ⟨hmem, by simpa using hkey⟩, hp⟩

/-- Whether a place comes before another one by key and index. -/
def Place.Precedes (p q : Place) : Prop :=
  p.key < q.key ∨ (p.key = q.key ∧ p.index < q.index)

/-- The places under a key are in order of index. -/
theorem pairwise_placesUnder (key : String) (w : Value) :
    (placesUnder key w).Pairwise Place.Precedes := by
  unfold placesUnder
  split
  · rename_i items _
    have hindexes : items.zipIdx.Pairwise fun x y => x.2 < y.2 := by
      rw [← List.pairwise_map (f := Prod.snd), List.zipIdx_map_snd]
      exact List.pairwise_lt_range'
    rw [List.pairwise_map]
    exact (hindexes.filter _).imp fun hlt => .inr ⟨rfl, hlt⟩
  · split
    · exact List.pairwise_singleton _ _
    · exact .nil

/-- The places of an object are in order of key, and those of one key in order of index; so each
    is there once. -/
theorem pairwise_placesIn {v : Value} (hkeys : KeysAscend v) :
    (placesIn v).Pairwise Place.Precedes := by
  rw [placesIn, List.pairwise_flatMap]
  -- Under one key by index; what stands under two keys by the keys.
  refine ⟨fun m _ => pairwise_placesUnder m.1 m.2, .filter _ ?_⟩
  cases hms : v.members? with
  | none => exact .nil
  | some ms =>
    refine (hkeys ms hms).imp fun hlt p hp q hq => .inl ?_
    rw [key_of_mem_placesUnder hp, key_of_mem_placesUnder hq]
    exact hlt

/-! ## The places in order of position -/

/-- To stand before is to begin no later. -/
theorem standsBefore_iff {line : Nat} {v w : Value} :
    standsBefore line v w ↔ (startOf line v).1 < (startOf line w).1
      ∨ ((startOf line v).1 = (startOf line w).1 ∧ (startOf line v).2 ≤ (startOf line w).2) := by
  simp [standsBefore, startOf]

/-- The order of positions is transitive. -/
theorem standsBefore_trans {line : Nat} (u v w : Value) (huv : standsBefore line u v)
    (hvw : standsBefore line v w) : standsBefore line u w := by
  rw [standsBefore_iff] at *
  omega

/-- Any two values are in order of position one way or the other. -/
theorem standsBefore_total {line : Nat} (v w : Value) :
    standsBefore line v w || standsBefore line w v := by
  rw [Bool.or_eq_true, standsBefore_iff, standsBefore_iff]
  omega

/-- The places of an object in order of position. -/
def sortedPlaces (line : Nat) (v : Value) : List Place :=
  (placesIn v).mergeSort fun p q => standsBefore line p.child q.child

/-- Sorting the places sorts what stands there. -/
theorem map_child_sortedPlaces (line : Nat) (v : Value) :
    (sortedPlaces line v).map Place.child = orderedChildNodes line v := by
  rw [orderedChildNodes, ← map_child_placesIn]
  exact List.map_mergeSort fun _ _ _ _ => rfl

/-- The sort puts places in order of position, and keeps the order of key and index where the
    positions tie. -/
theorem pairwise_sortedPlaces {v : Value} (hkeys : KeysAscend v) (line : Nat) :
    (sortedPlaces line v).Pairwise (Place.Before line) := by
  let le (p q : Place) : Bool := standsBefore line p.child q.child
  have htrans : ∀ p q r, le p q → le q r → le p r :=
    fun p q r => standsBefore_trans p.child q.child r.child
  have htotal : ∀ p q, le p q || le q p := fun p q => standsBefore_total p.child q.child
  refine (pairwise_mergeSort_ties htrans htotal (pairwise_placesIn hkeys)).imp ?_
  rintro p q ⟨hle, hties⟩
  rcases standsBefore_iff.1 hle with hline | ⟨hline, hcolumn⟩
  · exact .line hline
  · rcases Nat.lt_or_eq_of_le hcolumn with hlt | hcolumn
    · exact .column hline hlt
    · -- At one position the two are in the order in which the object has them.
      have hback : standsBefore line q.child p.child :=
        standsBefore_iff.2 (.inr ⟨hline.symm, Nat.le_of_eq hcolumn.symm⟩)
      have hstart : startOf line p.child = startOf line q.child := Prod.ext hline hcolumn
      rcases hties hback with hkey | ⟨hkey, hindex⟩
      · exact .key hstart (ofString_lt_ofString.2 hkey)
      · exact .index hstart hkey hindex

/-- The places of an object that become children, in order of position. -/
def nodePlaces (line : Nat) (v : Value) : List Place :=
  (sortedPlaces line v).filter fun p => isNode p.child

/-- Of the places of an object, those with a node become children. -/
theorem mem_nodePlaces {line : Nat} {v : Value} (hkeys : KeysAscend v) {p : Place} :
    p ∈ nodePlaces line v ↔ StandsIn v p ∧ isNode p.child := by
  rw [nodePlaces, List.mem_filter, sortedPlaces, List.mem_mergeSort, mem_placesIn hkeys]

theorem pairwise_nodePlaces {v : Value} (hkeys : KeysAscend v) (line : Nat) :
    (nodePlaces line v).Pairwise (Place.Before line) :=
  (pairwise_sortedPlaces hkeys line).filter _

/-! ## The children -/

/-- The parts of what was made part by part are made of the parts that were given. -/
theorem Construct.Lists.of_map {α β : Type} {f : α → β} {c : Construct α} {parts : List β}
    (h : (c.map f).Lists parts) : ∃ seeds, c.Lists seeds ∧ parts = seeds.map f := by
  cases c with
  | block => cases h; exact ⟨_, .block, rfl⟩
  | statement => cases h; exact ⟨_, .statement, rfl⟩
  | expression => cases h; exact ⟨_, .expression, rfl⟩
  | _ => cases h

/-- A block, a statement or an expression is due its child nodes in order of position. -/
theorem lists_constructOf {line : Nat} {v : Value} {seeds : List Seed}
    (h : (Seed.constructOf line v).Lists seeds) :
    seeds = Seed.ofValues line (orderedChildNodes line v) := by
  unfold Seed.constructOf at h
  split at h <;> cases h <;> rfl

/-- The nodes of the parts that are due are the nodes at the places. -/
theorem map_node_ofValues (line : Nat) (v : Value) :
    (Seed.ofValues line (orderedChildNodes line v)).map Seed.node
      = (nodePlaces line v).map fun p => nodeOf line p.child := by
  rw [Seed.ofValues, ← map_child_sortedPlaces, List.filter_map, List.map_map, List.map_map]
  rfl

/-- The children of a node are the nodes at its places, on its line where they have none of their
    own. -/
theorem children_eq {outer : Nat} {v : Value} {cs : List Node}
    (h : (nodeOf outer v).construct.Lists cs) :
    cs = (nodePlaces (nodeOf outer v).line v).map
      fun p => nodeOf (nodeOf outer v).line p.child := by
  rw [construct_nodeOf] at h
  obtain ⟨seeds, hseeds, rfl⟩ := h.of_map
  rw [lists_constructOf hseeds, map_node_ofValues]

/-! ## Children that begin apart -/

/-- A value begins before another one. -/
def BeginsBefore (line : Nat) (c d : Value) : Prop :=
  (startOf line c).1 < (startOf line d).1
    ∨ ((startOf line c).1 = (startOf line d).1 ∧ (startOf line c).2 < (startOf line d).2)

/-- Of two places that do not begin together the earlier one begins before the other. -/
theorem Place.Before.beginsBefore {line : Nat} {p q : Place} (h : p.Before line q)
    (hapart : startOf line p.child = startOf line q.child → p = q) :
    BeginsBefore line p.child q.child := by
  cases h with
  | line h => exact .inl h
  | column hline h => exact .inr ⟨hline, h⟩
  | key hstart h =>
    cases hapart hstart
    exact absurd h (List.lt_irrefl _)
  | index hstart _ h =>
    cases hapart hstart
    exact absurd h (Nat.lt_irrefl _)

/-- Children that begin apart are in strict order of position. -/
theorem Apart.pairwise_child {line : Nat} {v : Value} (hapart : Apart line v)
    (hkeys : KeysAscend v) :
    ((nodePlaces line v).map Place.child).Pairwise (BeginsBefore line) := by
  rw [List.pairwise_map]
  refine (pairwise_nodePlaces hkeys line).imp_of_mem fun {p q} hp hq hbefore => ?_
  obtain ⟨hpstands, hpnode⟩ := (mem_nodePlaces hkeys).1 hp
  obtain ⟨hqstands, hqnode⟩ := (mem_nodePlaces hkeys).1 hq
  exact hbefore.beginsBefore (hapart p q hpstands hpnode hqstands hqnode)

/-- The values of the children are the nodes that stand somewhere in the object. -/
theorem mem_map_child_nodePlaces {line : Nat} {v : Value} (hkeys : KeysAscend v) {c : Value} :
    c ∈ (nodePlaces line v).map Place.child ↔ isNode c ∧ ∃ p, StandsIn v p ∧ p.child = c := by
  rw [List.mem_map]
  constructor
  · rintro ⟨p, hp, rfl⟩
    obtain ⟨hstands, hnode⟩ := (mem_nodePlaces hkeys).1 hp
    exact ⟨hnode, p, hstands, rfl⟩
  · rintro ⟨hnode, p, hstands, rfl⟩
    exact ⟨p, (mem_nodePlaces hkeys).2 ⟨hstands, hnode⟩, rfl⟩

/-- Children that begin apart are in one order only, wherever they stand. -/
theorem eq_of_apart {line : Nat} {v w : Value} (hv : KeysAscend v) (hw : KeysAscend w)
    (hvapart : Apart line v) (hwapart : Apart line w) (hsame : SameChildren v w) :
    (nodePlaces line w).map Place.child = (nodePlaces line v).map Place.child := by
  have hasymm {c d : Value} (hcd : BeginsBefore line c d) (hdc : BeginsBefore line d c) :
      c = d := by
    unfold BeginsBefore at hcd hdc
    omega
  have hne {c d : Value} (hcd : BeginsBefore line c d) : c ≠ d := by
    rintro rfl
    unfold BeginsBefore at hcd
    omega
  -- Both lists ascend strictly, so they are one list if they have the same members.
  have hsorted := hvapart.pairwise_child hv
  have hsorted' := hwapart.pairwise_child hw
  have hmem : ∀ c, c ∈ (nodePlaces line w).map Place.child
      ↔ c ∈ (nodePlaces line v).map Place.child := fun c => by
    rw [mem_map_child_nodePlaces hw, mem_map_child_nodePlaces hv]
    exact and_congr_right fun hnode => (hsame c hnode).symm
  have hperm := (List.perm_ext_iff_of_nodup (hsorted'.imp hne) (hsorted.imp hne)).2 hmem
  exact hperm.eq_of_pairwise (fun _ _ _ _ => hasymm) hsorted' hsorted

/-- A block, a statement or an expression has the nodes that stand in its object as children,
    each once and in order of position; and if no two of them begin at one position, then so has
    every node on its line that has the same children, wherever these stand. -/
theorem children_sourceOrder {outer : Nat} {v : Value} {cs : List Node} (hkeys : KeysAscend v)
    (h : (nodeOf outer v).construct.Lists cs) :
    (∃ places : List Place, places.Pairwise (Place.Before (nodeOf outer v).line)
        ∧ (∀ p, p ∈ places ↔ StandsIn v p ∧ isNode p.child)
        ∧ cs = places.map fun p => nodeOf (nodeOf outer v).line p.child)
      ∧ ∀ (outer' : Nat) (w : Value) (ds : List Node), KeysAscend w →
        (nodeOf outer' w).construct.Lists ds → (nodeOf outer' w).line = (nodeOf outer v).line →
        Apart (nodeOf outer v).line v → Apart (nodeOf outer v).line w → SameChildren v w →
        ds = cs := by
  refine ⟨⟨nodePlaces _ v, pairwise_nodePlaces hkeys _, fun p => mem_nodePlaces hkeys,
    children_eq h⟩, ?_⟩
  intro outer' w ds hkeys' h' hline hvapart hwapart hsame
  have hchildren := eq_of_apart hkeys hkeys' hvapart hwapart hsame
  rw [children_eq h, children_eq h', hline]
  -- A child is made of its value and the line around it, and of nothing else.
  have hmap := congrArg (List.map (nodeOf (nodeOf outer v).line)) hchildren
  rwa [List.map_map, List.map_map] at hmap

/-! ## Trees read from text -/

section Spelled

variable {v w : Value} {key : String} (hv : v.Spelled)

include hv

theorem spelled_of_nodeUnder? (h : nodeUnder? v key = some w) : w.Spelled :=
  hv.get? (Option.filter_eq_some_iff.1 h).1

theorem spelled_of_mem_itemsUnder (h : w ∈ itemsUnder v key) : w.Spelled := by
  unfold itemsUnder at h
  cases hitems : (v.get? key).bind Value.items? with
  | none =>
    rw [hitems] at h
    cases h
  | some items =>
    rw [hitems] at h
    obtain ⟨array, hget, hitems⟩ := Option.bind_eq_some_iff.1 hitems
    exact (hv.get? hget).of_mem_items hitems h

theorem spelled_of_mem_valuesUnder (h : w ∈ valuesUnder v key) : w.Spelled := by
  unfold valuesUnder at h
  split at h
  · cases h
  · rename_i u hget
    cases hitems : u.items? with
    | none =>
      rw [hitems] at h
      obtain rfl := List.mem_singleton.1 h
      exact hv.get? hget
    | some items =>
      rw [hitems] at h
      exact (hv.get? hget).of_mem_items hitems h

theorem spelled_of_mem_labels (h : w ∈ labels v) : w.Spelled :=
  spelled_of_mem_itemsUnder hv (List.mem_filter.1 h).1

/-- A child of an object is the value of a member, or an item of the array that is. -/
theorem spelled_of_mem_orderedChildNodes {line : Nat} (h : w ∈ orderedChildNodes line v) :
    w.Spelled := by
  rw [orderedChildNodes, List.mem_mergeSort] at h
  obtain ⟨m, hm, hw⟩ := List.mem_flatMap.1 h
  have hmember : m.2.Spelled := by
    cases hms : v.members? with
    | none =>
      rw [hms] at hm
      cases hm
    | some ms =>
      rw [hms] at hm
      exact hv.of_mem_members hms (List.mem_filter.1 hm).1
  unfold typedNodes at hw
  split at hw
  · rename_i items hitems
    exact hmember.of_mem_items hitems (List.mem_filter.1 hw).1
  · split at hw
    · obtain rfl := List.mem_singleton.1 hw
      exact hmember
    · cases hw

end Spelled

/-- The values of what is found in a construct are spelled out if the one it was made of is. -/
theorem Found.spelled {v w : Value} {line inner : Nat} {construct : Construct Node} {n : Node}
    (hv : v.Spelled) (h : Found v line construct inner (some w) n) : w.Spelled := by
  generalize hw : some w = u at h
  cases h with
  | parameter h =>
    cases hw
    have hparams := (List.mem_filter.1 (List.of_mem_zip h).1).1
    rcases List.mem_append.1 hparams with hparams | hparams
    · rcases List.mem_append.1 hparams with hparams | hparams
      · exact spelled_of_mem_valuesUnder hv hparams
      · exact spelled_of_mem_valuesUnder hv hparams
    · exact spelled_of_mem_valuesUnder hv hparams
  | functionBody | test | consequent | alternate | discriminant | loopBody =>
    exact spelled_of_nodeUnder? hv hw.symm
  | caseTest hk =>
    exact spelled_of_nodeUnder? (spelled_of_mem_labels hv (List.of_mem_zip hk).1) hw.symm
  | caseStatement hk h =>
    cases hw
    have hlabel := spelled_of_mem_labels hv (List.of_mem_zip hk).1
    exact spelled_of_mem_itemsUnder hlabel (List.mem_filter.1 (List.of_mem_zip h).1).1
  | head h =>
    cases hw
    obtain ⟨key, -, hunder⟩ := List.mem_filterMap.1 (List.of_mem_zip h).1
    exact spelled_of_nodeUnder? hv hunder
  | blockMember h | statementPart h | expressionPart h =>
    cases hw
    exact spelled_of_mem_orderedChildNodes hv (List.mem_filter.1 (List.of_mem_zip h).1).1

/-- What the nodes of a script were made of is spelled out if its root is. -/
theorem Program.Origin.spelled {p : Program} {root v : Value} {top outer : Nat} {n : Node}
    (hroot : root.Spelled) (h : p.Origin root top outer (some v) n) : v.Spelled := by
  generalize hw : some v = w at h
  induction h generalizing v with
  | top h =>
    cases hw
    exact spelled_of_mem_itemsUnder hroot (List.mem_filter.1 (List.of_mem_zip h).1).1
  | part _ hfound ih =>
    subst hw
    exact hfound.spelled (ih rfl)

/-- In a script that text spells out, the nodes that stand in the object of a block, a statement
    or an expression are its children, each once and in order of position. -/
theorem Program.Origin.children_ofText {text filename : String} {root v : Value} {p : Program}
    {outer : Nat} {n : Node} {cs : List Node} (hroot : Value.ofString? text = some root)
    (hp : Program.ofValue root filename = .ok p)
    (hn : p.Origin root (rootLine root) outer (some v) n) (hcs : n.construct.Lists cs) :
    ∃ places : List Place, places.Pairwise (Place.Before n.line)
      ∧ (∀ q, q ∈ places ↔ StandsIn v q ∧ isNode q.child)
      ∧ cs = places.map fun q => nodeOf n.line q.child := by
  have hspelled : v.Spelled := hn.spelled (Value.spelled_of_ofString? hroot)
  have hkeys : KeysAscend v := fun ms hms => hspelled.ascending hms
  obtain rfl : n = nodeOf outer v := hn.eq_node hp
  exact ⟨nodePlaces _ v, pairwise_nodePlaces hkeys _, fun q => mem_nodePlaces hkeys,
    children_eq hcs⟩

/-- A name at a column of line 4. -/
def nameAt (column : Int) : Value :=
  .object [("loc", .object [("start", .object [("column", .int column), ("line", .int 4)])]),
    ("type", .text "Identifier")]

/-- Two names under two keys, the later one first, and a value whose type is no text. -/
def scattered : Value :=
  .object [("alpha", .array [nameAt 7, .object [("type", .int 5)]]),
    ("type", .text "SequenceExpression"), ("zeta", nameAt 2)]

/-- The two names in one array. -/
def gathered : Value :=
  .object [("body", .array [nameAt 2, nameAt 7]), ("type", .text "BlockStatement")]

/-- Two children that begin apart are enough if there are no others. -/
theorem apart_of_two {line : Nat} {v : Value} {first second : Place}
    (hplaces : ∀ p, StandsIn v p ∧ isNode p.child → p = first ∨ p = second)
    (hstart : startOf line first.child ≠ startOf line second.child) : Apart line v := by
  intro p q hp hpnode hq hqnode heq
  rcases hplaces p ⟨hp, hpnode⟩ with rfl | rfl <;> rcases hplaces q ⟨hq, hqnode⟩ with rfl | rfl
  · rfl
  · exact absurd heq hstart
  · exact absurd heq.symm hstart
  · rfl

theorem children_sourceOrder_gathered :
    KeysAscend scattered ∧ KeysAscend gathered ∧ SameChildren scattered gathered
      ∧ ∃ cs, (nodeOf 4 scattered).construct.Lists cs ∧ (nodeOf 4 gathered).construct.Lists cs := by
  have hkeys : KeysAscend scattered := by
    rintro _ ⟨⟩
    unfold Keyed.Ascending
    decide
  have hkeys' : KeysAscend gathered := by
    rintro _ ⟨⟩
    unfold Keyed.Ascending
    decide
  have hplaces : ∀ p, (StandsIn scattered p ∧ isNode p.child)
      ↔ p = ⟨"alpha", 0, nameAt 7⟩ ∨ p = ⟨"zeta", 0, nameAt 2⟩ := by
    intro p
    have hnodes : (placesIn scattered).filter (fun p => isNode p.child)
        = [⟨"alpha", 0, nameAt 7⟩, ⟨"zeta", 0, nameAt 2⟩] := rfl
    rw [← List.mem_pair, ← hnodes, List.mem_filter, mem_placesIn hkeys]
  have hplaces' : ∀ p, (StandsIn gathered p ∧ isNode p.child)
      ↔ p = ⟨"body", 0, nameAt 2⟩ ∨ p = ⟨"body", 1, nameAt 7⟩ := by
    intro p
    have hnodes : (placesIn gathered).filter (fun p => isNode p.child)
        = [⟨"body", 0, nameAt 2⟩, ⟨"body", 1, nameAt 7⟩] := rfl
    rw [← List.mem_pair, ← hnodes, List.mem_filter, mem_placesIn hkeys']
  -- Column 7 and column 2, in whichever order the keys come.
  have hapart : Apart 4 scattered := apart_of_two (fun p => (hplaces p).1) (by decide)
  have hapart' : Apart 4 gathered := apart_of_two (fun p => (hplaces' p).1) (by decide)
  have hsame : SameChildren scattered gathered := by
    intro c hnode
    constructor
    · rintro ⟨p, hp, rfl⟩
      rcases (hplaces p).1 ⟨hp, hnode⟩ with rfl | rfl
      · exact ⟨_, ((hplaces' _).2 (.inr rfl)).1, rfl⟩
      · exact ⟨_, ((hplaces' _).2 (.inl rfl)).1, rfl⟩
    · rintro ⟨p, hp, rfl⟩
      rcases (hplaces' p).1 ⟨hp, hnode⟩ with rfl | rfl
      · exact ⟨_, ((hplaces _).2 (.inr rfl)).1, rfl⟩
      · exact ⟨_, ((hplaces _).2 (.inl rfl)).1, rfl⟩
  have hline : (nodeOf 4 scattered).line = 4 := line_nodeOf 4 scattered
  have hline' : (nodeOf 4 gathered).line = 4 := line_nodeOf 4 gathered
  obtain ⟨cs, hcs⟩ : ∃ cs, (nodeOf 4 scattered).construct.Lists cs := by
    rw [construct_nodeOf]
    exact ⟨_, .expression⟩
  obtain ⟨ds, hds⟩ : ∃ ds, (nodeOf 4 gathered).construct.Lists ds := by
    rw [construct_nodeOf]
    exact ⟨_, .block⟩
  obtain ⟨-, hother⟩ := children_sourceOrder hkeys hcs
  rw [hline] at hother
  have heq : ds = cs := hother 4 gathered ds hkeys' hds hline' hapart hapart' hsame
  exact ⟨hkeys, hkeys', hsame, cs, hcs, heq ▸ hds⟩

end Coverage.Script
