/-
  Coverage.Proofs.Session.Failures

  A registration that fails is confined to its source, and no failure of the cache makes it fail.

  A registration fails for one of three reasons: its source is not tracked, or has no content,
  or does not parse (`Confined`).  In the first two cases nothing at all has changed.  In the
  last one the cache has been asked before, so that is counted, and an entry that could not be
  read is counted as an error (`readErrors_eq`).  Whatever the cache says or fails to say, a
  source that is tracked, has content and parses is registered.
-/

import Coverage.Proofs.Session.Balance
import Coverage.Proofs.Session.Registry

namespace Coverage

open Text (Utf8.lossy)

/-! ## What makes an entry unreadable -/

/-- Whether what a cache has for a source cannot be read: the database is gone, or the entry has
    no token, or two. -/
def Cache.isUnreadable (c : Cache) (id : SourceId) : Bool :=
  !c.isReadable
    || (c.store.tables.find? id.text).any fun row => row.modified.isSome == row.digest.isSome

/-- Looking for a map fails exactly if the entry of its source is unreadable. -/
theorem Cache.isUnreadable_eq (c : Cache) (r : Revision) :
    c.isUnreadable r.id = !(c.load r).toBool := by
  unfold isUnreadable load read
  cases c.isReadable with
  | false => rfl
  | true =>
    show _ = !(c.store.load r).toBool
    unfold Cache.Store.load
    cases c.store.tables.find? r.id.text with
    | none => rfl
    | some row =>
      -- One token of two makes an entry that can be read.
      obtain ⟨number, text, modified, digest⟩ := row
      cases modified with
      | none =>
        cases digest with
        | none => rfl
        | some hex => rfl
      | some time =>
        cases digest with
        | none => rfl
        | some hex => rfl

/-- A source without content is missing, or it is there and cannot be read. -/
theorem Surroundings.content_error {e : Surroundings} {id : SourceId} {fault : Fault}
    (h : e.content id = .error fault) : fault = .missing id.text ∨ fault = .inputOutput := by
  cases id with
  | file path =>
    simp only [content] at h
    split at h
    · cases h
    · rename_i other hread
      cases h
      -- A directory or a file on the way is an error of the system; what is not there is missing.
      unfold Workspace.read at hread
      split at hread
      · cases hread
      · exact .inr (Except.error.inj hread).symm
      · exact .inr (Except.error.inj hread).symm
      · exact .inl (Except.error.inj hread).symm
      · exact .inl (Except.error.inj hread).symm
  | resource uri =>
    simp only [content] at h
    split at h
    · cases h
    · exact .inl (Except.error.inj h).symm

namespace Session

variable {e : Surroundings} {s : Session} {id : SourceId}

/-- A look-up makes a read error exactly if the cache cannot be read at the identity. -/
theorem readErrors_eq (s : Session) (r : Revision) :
    s.readErrors r = (s.cache.isUnreadable r.id).toNat := by
  rw [Cache.isUnreadable_eq]
  unfold readErrors
  cases s.cache.load r with
  | ok found => rfl
  | error fault => rfl

/-! ## Registrations that fail -/

/-- A fault of a registration, and the session after it. -/
inductive Confined (e : Surroundings) (s : Session) (id : SourceId) : Fault → Session → Prop
  /-- The source is not tracked; nothing has changed. -/
  | untracked (htracks : s.tracks id = false) : Confined e s id (.untracked id.text) s
  /-- There is no such source; nothing has changed. -/
  | missing (hcontent : e.content id = .error (.missing id.text)) :
      Confined e s id (.missing id.text) s
  /-- The source is there and cannot be read; nothing has changed. -/
  | unread (hcontent : e.content id = .error .inputOutput) : Confined e s id .inputOutput s
  /-- The source does not parse; a miss and a failure to parse are counted, and an error if the
      entry was unreadable. -/
  | misparsed {r : Revision} {bytes : Bytes} {why : Script.SyntaxFault}
      (hcontent : e.content id = .ok (r, bytes))
      (hparse : e.engine (Utf8.lossy bytes) id.text = .error why) :
      Confined e s id (.misparsed why)
        { s with stats := s.stats.plus ⟨0, 1, 0, (s.cache.isUnreadable id).toNat, 1⟩ }

/-- A registration that fails leaves all but the statistics as it was, by the way it ended. -/
theorem confined_register {fault : Fault} (h : (s.register e id).1 = .error fault) :
    Confined e s id fault (s.register e id).2 := by
  have houtcome := outcome_register e s id
  generalize s.register e id = found at houtcome h ⊢
  obtain ⟨result, t⟩ := found
  cases houtcome with
  | known hindex => cases h
  | untracked hindex htracks =>
    cases h
    exact .untracked htracks
  | absent hnew hcontent =>
    cases h
    rcases Surroundings.content_error hcontent with rfl | rfl
    · exact .missing hcontent
    · exact .unread hcontent
  | served hnew hcontent hload => cases h
  | misparsed hnew hcontent hload hparse =>
    cases h
    obtain rfl := content_id hcontent
    rw [readErrors_eq]
    exact .misparsed hcontent hparse
  | parsed hnew hcontent hload hparse => cases h

/-- A source that is tracked, has content and parses is registered, whatever the cache does. -/
theorem register_isOk {r : Revision} {bytes : Bytes} {p : Script.Program}
    (htracks : s.tracks id = true) (hcontent : e.content id = .ok (r, bytes))
    (hparse : e.engine (Utf8.lossy bytes) id.text = .ok p) :
    ∃ n, (s.register e id).1 = .ok n := by
  cases hresult : (s.register e id).1 with
  | ok n => exact ⟨n, rfl⟩
  | error fault =>
    -- None of the reasons to fail is there.
    have hconfined := confined_register hresult
    generalize (s.register e id).2 = t at hconfined
    cases hconfined with
    | untracked hnot => cases htracks.symm.trans hnot
    | missing habsent => cases hcontent.symm.trans habsent
    | unread habsent => cases hcontent.symm.trans habsent
    | misparsed hcontent' hparse' =>
      cases hcontent.symm.trans hcontent'
      cases hparse.symm.trans hparse'

namespace Indexed

/-- A registration that fails enters nothing in the index. -/
theorem index_register_error {x : Indexed} {fault : Fault}
    (h : (x.register e id).1 = .error fault) : (x.register e id).2.index = x.index := by
  unfold register at h ⊢
  cases hindex : x.fileIndex? id with
  | some n => rfl
  | none =>
    cases htracks : x.session.tracks id with
    | false => rfl
    | true =>
      cases hcontent : e.content id with
      | error fault => rfl
      | ok found =>
        obtain ⟨r, bytes⟩ := found
        simp only [hindex, htracks, hcontent, Bool.not_true, Bool.false_eq_true, if_false] at h ⊢
        generalize x.session.mapOf e.engine r (Utf8.lossy bytes) = found at h ⊢
        obtain ⟨fault | m, s⟩ := found
        · rfl
        · cases h

/-- Whatever a session has met, a registration that fails is confined to its source and does not
    enter it in the index, and none fails where the source can be registered; the session
    without an index does the same. -/
theorem failure_confined (settings : Settings) (cache : Cache) (os : List Occurrence)
    (e : Surroundings) (id : SourceId) :
    (∀ fault, (((start settings cache).course os).register e id).1 = .error fault →
        Confined e ((start settings cache).course os).session id fault
            (((start settings cache).course os).register e id).2.session
          ∧ (((start settings cache).course os).register e id).2.index
            = ((start settings cache).course os).index)
      ∧ (∀ r bytes p, ((start settings cache).course os).session.tracks id = true →
        e.content id = .ok (r, bytes) → e.engine (Utf8.lossy bytes) id.text = .ok p →
        ∃ n, (((start settings cache).course os).register e id).1 = .ok n)
      ∧ Follows (((start settings cache).course os).register e id)
        (((Session.start settings cache).course os).register e id) := by
  obtain ⟨hsession, hfaithful⟩ := session_course (faithful_start settings cache) os
  generalize (start settings cache).course os = x at hsession hfaithful ⊢
  have hfollows := follows_register hfaithful e id
  refine ⟨fun fault hfault => ⟨?_, index_register_error hfault⟩, ?_, hsession ▸ hfollows⟩
  · rw [hfollows.session]
    exact confined_register (hfollows.result ▸ hfault)
  · intro r bytes p htracks hcontent hparse
    rw [hfollows.result]
    exact register_isOk htracks hcontent hparse

/-- An engine that parses nothing. -/
def parsesNothing : Surroundings :=
  { Host.oneScript with engine := fun _ filename => .error (.notProgram filename) }

/-- A script that does not parse and whose entry in the cache has lost its token: the failure is
    counted and the entry stays.  Where the script parses, the entry is no obstacle, and neither
    is that the cache takes no other. -/
theorem failure_confined_troubled :
    (((start ⟨[], none⟩ troubled).course []).register parsesNothing (.file "/a.js")).2.session
        = { Session.start ⟨[], none⟩ troubled with stats := ⟨0, 1, 0, 1, 1⟩ }
      ∧ ∃ n, (((start ⟨[], none⟩ troubled).course []).register Host.oneScript (.file "/a.js")).1
        = .ok n := by
  have hfault : (((start ⟨[], none⟩ troubled).course []).register parsesNothing (.file "/a.js")).1
      = .error (.misparsed (.notProgram "/a.js")) := by decide +kernel
  obtain ⟨hconfined, -, -⟩ := failure_confined ⟨[], none⟩ troubled [] parsesNothing (.file "/a.js")
  obtain ⟨-, hisOk, -⟩ := failure_confined ⟨[], none⟩ troubled [] Host.oneScript (.file "/a.js")
  refine ⟨?_, hisOk ⟨.file "/a.js", .modified 0 5⟩ [10] ⟨[]⟩ rfl (by decide +kernel) rfl⟩
  have hafter := (hconfined _ hfault).1
  generalize (((start ⟨[], none⟩ troubled).course []).register parsesNothing
    (.file "/a.js")).2.session = t at hafter ⊢
  cases hafter with
  | misparsed hcontent hparse =>
    have hunreadable : troubled.isUnreadable (.file "/a.js") = true := by decide +kernel
    rw [show (start ⟨[], none⟩ troubled).course [] = start ⟨[], none⟩ troubled from rfl]
    simp only [start, Session.start, hunreadable, Statistics.plus, Bool.toNat_true, Nat.zero_add]

end Indexed
end Session
end Coverage
