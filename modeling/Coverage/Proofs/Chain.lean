/-
  Coverage.Proofs.Chain

  Chains of operations that may fail: what is known when a chain succeeded, and when every
  link of it does.
-/

namespace Coverage

variable {ε α β σ : Type}

/-- A chain succeeds if both of its parts do. -/
theorem bind_eq_ok {x : Except ε α} {f : α → Except ε β} {b : β} :
    x >>= f = .ok b ↔ ∃ a, x = .ok a ∧ f a = .ok b := by
  cases x with
  | error e => simp [bind, Except.bind]
  | ok a => simp [bind, Except.bind]

@[simp] theorem ok_bind (a : α) (f : α → Except ε β) : (Except.ok a >>= f) = f a := rfl

@[simp] theorem error_bind (e : ε) (f : α → Except ε β) :
    ((Except.error e : Except ε α) >>= f) = .error e := rfl

/-- What every step of a fold keeps, a fold that succeeds keeps. -/
theorem foldlM_keeps {P : σ → Prop} {f : σ → α → Except ε σ} {as : List α} {s s' : σ}
    (hstep : ∀ s, ∀ a ∈ as, ∀ s', P s → f s a = .ok s' → P s') (hs : P s)
    (h : as.foldlM f s = .ok s') : P s' := by
  induction as generalizing s with
  | nil =>
    rw [List.foldlM_nil] at h
    exact Except.ok.inj h ▸ hs
  | cons a rest ih =>
    rw [List.foldlM_cons] at h
    obtain ⟨t, ht, h⟩ := bind_eq_ok.1 h
    have hfirst : P t := hstep s a List.mem_cons_self t hs ht
    exact ih (fun u b hb => hstep u b (List.mem_cons_of_mem a hb)) hfirst h

/-- A list is mapped as a whole where each of its members is. -/
theorem mapM_eq_pure {m : Type → Type} [Monad m] [LawfulMonad m] {f : α → m β} {g : α → β}
    {as : List α} (h : ∀ a ∈ as, f a = pure (g a)) : as.mapM f = pure (as.map g) := by
  induction as with
  | nil => rfl
  | cons a rest ih =>
    rw [List.mapM_cons, h a List.mem_cons_self, pure_bind,
      ih fun b hb => h b (List.mem_cons_of_mem a hb), pure_bind, List.map_cons]

/-- A list is mapped as a whole if each of its members can be. -/
theorem mapM_eq_ok [Nonempty β] {f : α → Except ε β} {as : List α}
    (h : ∀ a ∈ as, ∃ b, f a = .ok b) :
    ∃ g, as.mapM f = .ok (as.map g) ∧ ∀ a ∈ as, f a = .ok (g a) := by
  have hg : ∀ a ∈ as, f a = .ok (Classical.epsilon fun b => f a = .ok b) := by
    intro a ha
    exact Classical.epsilon_spec (h a ha)
  exact ⟨fun a => Classical.epsilon fun b => f a = .ok b, mapM_eq_pure hg, hg⟩

/-- What a list is mapped to comes from its members. -/
theorem mem_of_mapM_eq_ok {f : α → Except ε β} {as : List α} {bs : List β} {b : β}
    (h : as.mapM f = .ok bs) (hb : b ∈ bs) : ∃ a ∈ as, f a = .ok b := by
  induction as generalizing bs with
  | nil =>
    cases h
    exact absurd hb List.not_mem_nil
  | cons a rest ih =>
    rw [List.mapM_cons] at h
    obtain ⟨c, hc, h⟩ := bind_eq_ok.1 h
    obtain ⟨cs, hcs, h⟩ := bind_eq_ok.1 h
    cases h
    rcases List.mem_cons.1 hb with rfl | hb
    · exact ⟨a, List.mem_cons_self, hc⟩
    · obtain ⟨d, hd, hdb⟩ := ih hcs hb
      exact ⟨d, List.mem_cons_of_mem a hd, hdb⟩

/-- The same, where no fault is told. -/
theorem mem_of_mapM_eq_some {f : α → Option β} {as : List α} {bs : List β} {b : β}
    (h : as.mapM f = some bs) (hb : b ∈ bs) : ∃ a ∈ as, f a = some b := by
  induction as generalizing bs with
  | nil =>
    cases h
    exact absurd hb List.not_mem_nil
  | cons a rest ih =>
    rw [List.mapM_cons] at h
    obtain ⟨c, hc, h⟩ := Option.bind_eq_some_iff.1 h
    obtain ⟨cs, hcs, h⟩ := Option.bind_eq_some_iff.1 h
    cases h
    rcases List.mem_cons.1 hb with rfl | hb
    · exact ⟨a, List.mem_cons_self, hc⟩
    · obtain ⟨d, hd, hdb⟩ := ih hcs hb
      exact ⟨d, List.mem_cons_of_mem a hd, hdb⟩

/-- A list is not mapped if one member cannot be; where all faults are the same, it does not
    matter which. -/
theorem mapM_eq_error {f : α → Except ε β} {e : ε} {as : List α}
    (h : ∀ a ∈ as, f a = .error e ∨ ∃ b, f a = .ok b) (hbad : ∃ a ∈ as, f a = .error e) :
    as.mapM f = .error e := by
  induction as with
  | nil =>
    obtain ⟨a, ha, -⟩ := hbad
    exact absurd ha List.not_mem_nil
  | cons a rest ih =>
    rw [List.mapM_cons]
    rcases h a List.mem_cons_self with ha | ⟨b, hb⟩
    · rw [ha, error_bind]
    · have hrest : ∃ c ∈ rest, f c = .error e := by
        obtain ⟨c, hc, hce⟩ := hbad
        rcases List.mem_cons.1 hc with rfl | hc
        · rw [hb] at hce
          cases hce
        · exact ⟨c, hc, hce⟩
      rw [hb, ok_bind, ih (fun c hc => h c (List.mem_cons_of_mem a hc)) hrest, error_bind]

end Coverage
