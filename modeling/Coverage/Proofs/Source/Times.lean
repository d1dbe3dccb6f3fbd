/-
  Coverage.Proofs.Source.Times

  What the token of a modification time tells of it.

  A token tells microseconds since the epoch, and tokens of times that tell the same are equal
  (`eq_of_micros?`).  What a token tells is its time with less than a microsecond cut off toward
  the epoch, but for the earliest time of all, which is a second farther away than can be told
  (`micros?_ofNanos`).  That is the time rounded down exactly at or after the epoch and on whole
  microseconds; so the times less than a microsecond before the epoch have the tokens of those
  after it (`ofNanos_floor_iff`).
-/

import Coverage.Source.Revision

namespace Coverage.Freshness

variable {nanos later : Int} {s t : Freshness}

/-! ## What a token tells -/

/-- The microseconds since the epoch that a token tells, if it is one of a time. -/
def micros? : Freshness → Option Int
  | .modified seconds micros => some (seconds * microsPerSecond + micros)
  | .digest _ => none

/-- A token of a time, whose microseconds are less than a second. -/
def IsTime : Freshness → Prop
  | .modified _ micros => micros < microsPerSecond
  | .digest _ => False

theorem micros_lt (distance : Nat) :
    distance % nanosPerSecond / nanosPerMicro < microsPerSecond := by
  simp only [nanosPerSecond, nanosPerMicro, microsPerSecond]
  omega

theorem isTime_ofNanos (nanos : Int) : (ofNanos nanos).IsTime := by
  have hmicros := micros_lt nanos.natAbs
  unfold ofNanos
  dsimp only
  split
  · exact hmicros
  · split
    · exact Nat.lt_of_le_of_lt (Nat.zero_le _) hmicros
    · exact Nat.sub_lt (by decide) (Nat.pos_of_ne_zero ‹_›)

/-- Tokens of times that tell the same microseconds are equal. -/
theorem eq_of_micros? (hs : s.IsTime) (ht : t.IsTime) (h : s.micros? = t.micros?) : s = t := by
  cases s with
  | digest hex => exact hs.elim
  | modified seconds micros =>
    cases t with
    | digest hex => exact ht.elim
    | modified seconds' micros' =>
      have hsum := Option.some.inj h
      simp only [IsTime, microsPerSecond] at hs ht hsum
      have hseconds : seconds = seconds' := by omega
      have hmicros : micros = micros' := by omega
      rw [hseconds, hmicros]

/-! ## Times -/

/-- The earliest time whose seconds are an integer of 64 bits. -/
def earliest : Int :=
  -((secondsLimit + 1) * nanosPerSecond : Nat)

/-- A time whose seconds, rounded down, are an integer of 64 bits. -/
def InSeconds (nanos : Int) : Prop :=
  earliest ≤ nanos ∧ nanos < -earliest

instance : DecidablePred InSeconds := fun _ => inferInstanceAs (Decidable (_ ∧ _))

/-- The time that a token stands for: the earliest one is taken for the one a second later. -/
def standsFor (nanos : Int) : Int :=
  if nanos = earliest then nanos + nanosPerSecond else nanos

/-- The two parts of a distance from the epoch, put together in microseconds. -/
theorem micros_distance (distance : Nat) :
    ((distance / nanosPerSecond : Nat) : Int) * microsPerSecond
        + (distance % nanosPerSecond / nanosPerMicro : Nat)
      = (distance / nanosPerMicro : Nat) := by
  simp only [Freshness.nanosPerSecond, nanosPerMicro, microsPerSecond]
  omega

theorem micros?_ofNanos_natCast {distance : Nat} (h : distance / nanosPerSecond ≤ secondsLimit) :
    (ofNanos distance).micros? = some ((distance / nanosPerMicro : Nat) : Int) := by
  rw [ofNanos, if_pos (Int.natCast_nonneg distance), Int.natAbs_natCast, Nat.min_eq_left h,
    ← micros_distance, micros?]

theorem micros?_ofNanos_neg {distance : Nat} (h : distance / nanosPerSecond ≤ secondsLimit) :
    (ofNanos (-distance)).micros? = some (-((distance / nanosPerMicro : Nat) : Int)) := by
  rw [← micros_distance]
  have hmicros := micros_lt distance
  unfold ofNanos
  rw [Int.natAbs_neg, Int.natAbs_natCast, Nat.min_eq_left h]
  dsimp only
  split
  · -- Only the epoch is on both sides.
    obtain rfl : distance = 0 := by omega
    rfl
  · split
    · rename_i hwhole
      rw [micros?, hwhole, Int.neg_mul, Int.natCast_zero, Int.add_zero, Int.add_zero]
    · rw [micros?, Int.natCast_sub (Nat.le_of_lt hmicros), Int.sub_mul, Int.neg_mul, Int.one_mul]
      congr 1
      omega

theorem seconds_le {distance : Nat} (h : distance < (secondsLimit + 1) * nanosPerSecond) :
    distance / nanosPerSecond ≤ secondsLimit :=
  Nat.lt_succ_iff.1 (Nat.div_lt_of_lt_mul (Nat.mul_comm _ _ ▸ h))

/-- A token tells its time in microseconds, cut off toward the epoch. -/
theorem micros?_ofNanos (h : InSeconds nanos) :
    (ofNanos nanos).micros? = some ((standsFor nanos).tdiv nanosPerMicro) := by
  obtain ⟨hlow, hhigh⟩ := h
  unfold standsFor
  split
  · rename_i heq
    rw [heq]
    decide +kernel
  · unfold earliest at *
    obtain ⟨distance, rfl | rfl⟩ := nanos.eq_nat_or_neg
    · rw [micros?_ofNanos_natCast (seconds_le (by omega)), Int.ofNat_tdiv]
    · rw [micros?_ofNanos_neg (seconds_le (by omega)), Int.neg_tdiv, Int.ofNat_tdiv]

/-- Times have one token if what they stand for is the same after the cut. -/
theorem ofNanos_eq_iff (h : InSeconds nanos) (hlater : InSeconds later) :
    ofNanos nanos = ofNanos later
      ↔ (standsFor nanos).tdiv nanosPerMicro = (standsFor later).tdiv nanosPerMicro := by
  rw [← Option.some_inj (a := Int.tdiv _ _), ← micros?_ofNanos h, ← micros?_ofNanos hlater]
  exact ⟨congrArg micros?, eq_of_micros? (isTime_ofNanos nanos) (isTime_ofNanos later)⟩

/-! ## Rounding down -/

/-- What is cut off toward zero is rounded down at or above zero, and where nothing is cut off. -/
theorem tdiv_eq_fdiv_iff (nanos : Int) :
    nanos.tdiv nanosPerMicro = nanos.fdiv nanosPerMicro
      ↔ 0 ≤ nanos ∨ (nanosPerMicro : Int) ∣ nanos := by
  rw [Int.tdiv_eq_ediv, Int.fdiv_eq_ediv_of_nonneg nanos (Int.natCast_nonneg _)]
  split
  · exact iff_of_true (Int.add_zero _) ‹_›
  · refine iff_of_false (fun heq => ?_) ‹_›
    have hsign : (nanosPerMicro : Int).sign = 1 := rfl
    omega

/-- Numbers that are a microsecond apart are the same after the cut only on both sides of zero. -/
theorem tdiv_eq_iff (h : nanos + nanosPerMicro ≤ later) :
    nanos.tdiv nanosPerMicro = later.tdiv nanosPerMicro
      ↔ -nanosPerMicro < nanos ∧ later < nanosPerMicro := by
  have hsign : (nanosPerMicro : Int).sign = 1 := rfl
  rw [Int.tdiv_eq_ediv, Int.tdiv_eq_ediv, hsign]
  simp only [nanosPerMicro] at h ⊢
  omega

theorem standsFor_of_ne (h : nanos ≠ earliest) : standsFor nanos = nanos :=
  if_neg h

/-- The token of a time tells it rounded down exactly if it is at or after the epoch or on a whole
    microsecond, the earliest time apart.  Times that are a microsecond or more apart have one
    token exactly if the epoch is less than a microsecond from both, or the first is the earliest
    time and the other within the microsecond that this one is taken for. -/
theorem ofNanos_floor_iff (h : InSeconds nanos) :
    (∃ seconds micros, ofNanos nanos = .modified seconds micros ∧ micros < microsPerSecond
        ∧ seconds * microsPerSecond + micros = (standsFor nanos).tdiv nanosPerMicro
        ∧ (seconds * microsPerSecond + micros = nanos.fdiv nanosPerMicro
          ↔ (0 ≤ nanos ∨ (nanosPerMicro : Int) ∣ nanos) ∧ nanos ≠ earliest))
      ∧ ∀ later, InSeconds later → nanos + nanosPerMicro ≤ later →
        (ofNanos nanos = ofNanos later
          ↔ -nanosPerMicro < nanos ∧ later < nanosPerMicro
            ∨ nanos = earliest ∧ standsFor earliest - nanosPerMicro < later
              ∧ later ≤ standsFor earliest) := by
  have htime := isTime_ofNanos nanos
  have htold := micros?_ofNanos h
  refine ⟨?_, fun later hlater hapart => ?_⟩
  · cases htoken : ofNanos nanos with
    | digest hex =>
      rw [htoken] at htime
      exact htime.elim
    | modified seconds micros =>
      rw [htoken] at htime htold
      have hvalue := Option.some.inj htold
      refine ⟨seconds, micros, rfl, htime, hvalue, ?_⟩
      rw [hvalue]
      -- The earliest time is told as the one a second later, which rounding it does not give.
      by_cases hfirst : nanos = earliest
      · rw [hfirst]
        decide +kernel
      · rw [standsFor_of_ne hfirst, tdiv_eq_fdiv_iff]
        exact (and_iff_left hfirst).symm
  · have hsecond : later ≠ earliest := by
      have hlow := h.1
      simp only [nanosPerMicro] at hapart
      omega
    rw [ofNanos_eq_iff h hlater, standsFor_of_ne hsecond]
    by_cases hfirst : nanos = earliest
    · have hfar : ¬ -(nanosPerMicro : Int) < earliest := by decide
      have hstands : standsFor earliest = -9223372036854775807000000000 := by decide
      have hsign : (nanosPerMicro : Int).sign = 1 := rfl
      rw [hfirst, or_iff_right fun hnear => hfar hnear.1, and_iff_right rfl, hstands,
        Int.tdiv_eq_ediv, Int.tdiv_eq_ediv, hsign]
      simp only [nanosPerMicro]
      omega
    · rw [standsFor_of_ne hfirst, tdiv_eq_iff hapart]
      exact (or_iff_left fun hnot => hfirst hnot.1).symm

/-- A nanosecond before the epoch is told as the epoch itself, and less than a microsecond before
    it as what comes a microsecond later. -/
theorem justBeforeEpoch_not_floored :
    InSeconds (-1) ∧ ofNanos (-1) = .modified 0 0
      ∧ (¬ ∃ seconds micros, ofNanos (-1) = .modified seconds micros
        ∧ seconds * microsPerSecond + micros = Int.fdiv (-1) nanosPerMicro)
      ∧ (-999 : Int) + nanosPerMicro ≤ 1 ∧ ofNanos (-999) = ofNanos 1 := by
  have hepoch : ofNanos (-1) = .modified 0 0 := by decide
  refine ⟨by decide, hepoch, ?_, by decide, by decide⟩
  rintro ⟨seconds, micros, htoken, hfloor⟩
  rw [hepoch] at htoken
  obtain ⟨rfl, rfl⟩ := Freshness.modified.inj htoken
  exact absurd hfloor (by decide)

/-- Half a second before the epoch is told rounded down, and not as half a second after it. -/
theorem ofNanos_floor_iff_halfSecond :
    InSeconds (-500000000)
      ∧ (∃ seconds micros, ofNanos (-500000000) = .modified seconds micros
        ∧ seconds * microsPerSecond + micros = Int.fdiv (-500000000) nanosPerMicro)
      ∧ ofNanos (-500000000) ≠ ofNanos 500000000 := by
  have hrange : InSeconds (-500000000) := by decide
  obtain ⟨⟨seconds, micros, htoken, -, -, hfloor⟩, hshared⟩ := ofNanos_floor_iff hrange
  refine ⟨hrange, ⟨seconds, micros, htoken, hfloor.2 (by decide)⟩, ?_⟩
  rw [ne_eq, hshared 500000000 (by decide) (by decide)]
  decide

end Coverage.Freshness
