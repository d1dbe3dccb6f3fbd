/-
  Coverage.Proofs.Source.Identity

  The identities that texts name.

  A text that is not empty names one identity, and is the text of it; the empty one names
  none.  So two identities that texts name have different texts if their places differ.

  The names of a snapshot leave out what leads nowhere, so different sources may have the same;
  those that have nothing to leave out do not (`place_eq_of_snapshotNames`).
-/

import Coverage.Source.Identity

namespace Coverage.SourceId

open Source (Path.components Path.isRooted Path.names)

theorem ofText?_text {text : String} {id : SourceId} (h : ofText? text = some id) :
    id.text = text := by
  unfold ofText? at h
  split at h
  · cases h
  · split at h
    · exact (Option.some.inj h) ▸ rfl
    · exact (Option.some.inj h) ▸ rfl

theorem ofText?_eq_none {text : String} : ofText? text = none ↔ text = "" := by
  unfold ofText?
  split
  · simp [*]
  · split
    · simp [*]
    · simp [*]

theorem exists_ofText? {text : String} (h : text ≠ "") :
    ∃ id, ofText? text = some id ∧ id.text = text := by
  cases hid : ofText? text with
  | none => exact absurd (ofText?_eq_none.1 hid) h
  | some id => exact ⟨id, rfl, ofText?_text hid⟩

theorem text_ne_empty {text : String} {id : SourceId} (h : ofText? text = some id) :
    id.text ≠ "" := by
  rw [ofText?_text h]
  intro hempty
  rw [ofText?_eq_none.2 hempty] at h
  cases h

/-- The place that a text leads to. -/
def spelled (text : String) : Place :=
  ((ofText? text).getD (.file text)).place

theorem spelled_text {id : SourceId} (h : ofText? id.text = some id) :
    spelled id.text = id.place := by
  rw [spelled, h]
  rfl

/-! ## Identities that are spelled from the names of their snapshots -/

/-- An identity without steps in place or upwards and without empty parts, but for the one that
    follows the scheme of a URI. -/
def IsPlain : SourceId → Prop
  | .file path => Path.components path
      = (if Path.isRooted path then [.root] else []) ++ (Path.names path).map .name
  | .resource uri => uri = String.ofList scheme ++ "/" ++ "/".intercalate (resourceNames uri)

instance : DecidablePred IsPlain
  | .file _ => inferInstanceAs (Decidable (_ = _))
  | .resource _ => inferInstanceAs (Decidable (_ = _))

/-- The names of a snapshot begin with the kind of its source. -/
theorem kind_ne_resource (rooted : Bool) :
    (if rooted then "file" else "relative") ≠ "resource" := by
  cases rooted <;> decide

/-- Plain identities with the same names for their snapshots are the same source. -/
theorem place_eq_of_snapshotNames {id other : SourceId} (h : id.IsPlain) (h' : other.IsPlain)
    (hnames : id.snapshotNames = other.snapshotNames) : id.place = other.place := by
  cases id with
  | file path =>
    cases other with
    | file path' =>
      obtain ⟨hkind, htail⟩ := List.cons.inj hnames
      have hrooted : Path.isRooted path = Path.isRooted path' := by
        cases hp : Path.isRooted path <;> cases hp' : Path.isRooted path' <;>
          simp [hp, hp'] at hkind ⊢
      rw [place, place, h, h', hrooted, htail]
    | resource uri =>
      exact absurd (List.cons.inj hnames).1 (kind_ne_resource _)
  | resource uri =>
    cases other with
    | file path => exact absurd (List.cons.inj hnames).1.symm (kind_ne_resource _)
    | resource uri' =>
      rw [place, place, h, h', (List.cons.inj hnames).2]

end Coverage.SourceId
