import RelayerCore.Retry.Model

/-!
# The delays of the two retries

The first path of the pair waits `initial_delay * backoff_factor ^ k` before its call `k`, cut at
`max_delay`.  `with_retry` hands the same parameters to an iterator whose items are
`factor * base ^ (k + 1)`, with the initial delay as the base, so that the two schedules meet only
for a few parameters.
-/

namespace RelayerCore
namespace Retry

open Saturating

variable {T Err : Type} [Abortable Err]

/-- The delays of the first path among the first `n` items. -/
def BackoffPairIterator.firstPath (jitter : ℕ → UInt64 → UInt64) (self : BackoffPairIterator)
    (n : ℕ) : List Duration :=
  ((self.take jitter n).filter (·.alterationStep = .first)).map (·.duration)

/-- The waits of a run, in order. -/
def RetryFn.Run.sleeps (run : RetryFn.Run T Err) : List Duration :=
  run.acts.filterMap Act.slept?

/-- `min(max_delay, initial_delay * backoff_factor ^ k)` in milliseconds, saturating. -/
def Builder.schedule (self : Builder) (k : ℕ) : Duration :=
  .fromMillis (saturating (min self.maxDelay.asMillis
    (self.initialDelay.asMillis * self.backoffFactor.get.toNat ^ k)))

/-- An error that is retried after the usual delay. -/
def Ordinary (answer : Except Err T) : Prop :=
  ∃ err, answer = .error err ∧ Abortable.abortable err = false ∧ Abortable.rateLimit err = false

/-- Both retries follow the schedule: `with_retry` with its waits, and the pair with the delays of
its first path when the jitter is neutral. -/
def SameSchedule (items : ExponentialBackoff) (builder : Builder)
    (function first second : ℕ → Except Err T) : Prop :=
  ∀ k < maxAttempts,
    (builder.withRetry items function).retry.sleeps[k]? = some (builder.schedule k) ∧
    ((builder.withRetryPair first second).backoff.firstPath (fun _ => id)
      (2 * maxAttempts))[k]? = some (builder.schedule k)

/-- The initial delay is under a millisecond; or the maximum is a whole number of milliseconds not
above it; or both the initial delay and the factor are one; or both delays saturate. -/
def Builder.SchedulesMeet (self : Builder) : Prop :=
  self.initialDelay.asMillis = 0 ∨
  (self.maxDelay.nanos = self.maxDelay.asMillis * 10 ^ 6 ∧
    self.maxDelay.asMillis ≤ self.initialDelay.asMillis) ∨
  (self.backoffFactor.get.toNat = 1 ∧ self.initialDelay.asMillis = 1 ∧
    1 ≤ self.maxDelay.asMillis) ∨
  (u64Max ≤ self.initialDelay.asMillis ∧ u64Max ≤ self.maxDelay.asMillis)

/-! ### Durations -/

theorem Duration.ext_nanos {a b : Duration} (h : a.nanos = b.nanos) : a = b := by
  cases a
  cases b
  cases h
  rfl

theorem Duration.nanos_min (a b : Duration) : (min a b).nanos = min a.nanos b.nanos := by
  rcases le_total a b with h | h
  · have hn : a.nanos ≤ b.nanos := h
    rw [min_eq_left h, min_eq_left hn]
  · have hn : b.nanos ≤ a.nanos := h
    rw [min_eq_right h, min_eq_right hn]

@[simp] theorem Duration.nanos_fromMillis (ms : UInt64) :
    (Duration.fromMillis ms).nanos = ms.toNat * 10 ^ 6 := rfl

theorem BackoffPairIterator.cap_eq (self : BackoffPairIterator) (ms : UInt64) :
    self.cap ms = .fromMillis (saturating (min self.maxDelayMs.toNat ms.toNat)) := by
  apply Duration.ext_nanos
  have hms : ms.toNat ≤ u64Max := Nat.le_pred_of_lt ms.toNat_lt
  rw [Duration.nanos_fromMillis, toNat_saturating, sat_of_le ((min_le_right _ _).trans hms)]
  unfold BackoffPairIterator.cap
  split
  · rename_i h
    rw [Duration.nanos_fromMillis, min_eq_left (UInt64.lt_iff_toNat_lt.mp h).le]
  · rename_i h
    rw [Duration.nanos_fromMillis, min_eq_right (Nat.not_lt.mp (mt UInt64.lt_iff_toNat_lt.mpr h))]

/-! ### The waits of one function -/

/-- While a function fails with ordinary errors, its retry waits exactly the given delays. -/
theorem RetryFn.sleeps_attempts (self : RetryFn T Err) (hf : ∀ n, Ordinary (self.function n))
    (durations : List Duration) (calls : ℕ) :
    (self.attempts durations calls).sleeps = durations := by
  induction durations generalizing calls with
  | nil => rfl
  | cons duration rest ih =>
    obtain ⟨err, herr, habort, hrate⟩ := hf calls
    have hrun : self.attempts (duration :: rest) calls =
        (self.attempts rest (calls + 1)).after [.sleep duration, .call ()] := by
      simp [RetryFn.attempts, herr, habort, hrate]
    rw [hrun]
    exact congrArg (duration :: ·) (ih (calls + 1))

theorem Builder.sleeps_withRetry (builder : Builder) (items : ExponentialBackoff)
    {function : ℕ → Except Err T} (hf : ∀ n, Ordinary (function n)) {k : ℕ} (hk : k < maxAttempts) :
    (builder.withRetry items function).retry.sleeps[k]? =
      some (items (saturating builder.initialDelay.asMillis) builder.backoffFactor.get
        builder.maxDelay k) := by
  have hsleeps : (builder.withRetry items function).retry.sleeps =
      (List.range maxAttempts).map
        (items (saturating builder.initialDelay.asMillis) builder.backoffFactor.get
          builder.maxDelay) :=
    (builder.withRetry items function).sleeps_attempts hf _ 0
  rw [hsleeps, List.getElem?_map, List.getElem?_range hk, Option.map_some]

/-! ### The delays of the first path -/

/-- The iterator two items later, without jitter. -/
def BackoffPairIterator.afterTwo (self : BackoffPairIterator) : BackoffPairIterator where
  currentFirstPathDelayMs := saturatingMul self.currentFirstPathDelayMs self.factor.get
  currentSecondPathDelayMs :=
    saturatingMul (saturatingMul self.currentFirstPathDelayMs self.factor.get) self.factor.get
  factor := self.factor
  maxDelayMs := self.maxDelayMs
  backoffPath := .first

theorem BackoffPairIterator.cap_afterTwo (self : BackoffPairIterator) (ms : UInt64) :
    self.afterTwo.cap ms = self.cap ms := rfl

theorem BackoffPairIterator.firstPath_add_two (self : BackoffPairIterator)
    (hpath : self.backoffPath = .first) (n : ℕ) :
    self.firstPath (fun _ => id) (n + 2) =
      self.cap self.currentFirstPathDelayMs :: self.afterTwo.firstPath (fun _ => id) n := by
  cases self
  cases hpath
  rfl

theorem saturating_mul_pow (a f : UInt64) (hf : 0 < f.toNat) (k : ℕ) :
    saturating ((saturatingMul a f).toNat * f.toNat ^ k) =
      saturating (a.toNat * f.toNat ^ (k + 1)) := by
  apply UInt64.toNat_inj.mp
  rw [toNat_saturating, toNat_saturating, toNat_saturatingMul]
  show mul u64Max (sat u64Max (a.toNat * f.toNat)) (f.toNat ^ k) = _
  rw [mul_sat (Nat.pow_pos hf), mul_assoc, pow_succ']

theorem BackoffPairIterator.firstPath_eq (self : BackoffPairIterator)
    (hpath : self.backoffPath = .first) (n : ℕ) :
    self.firstPath (fun _ => id) (2 * n) = (List.range n).map fun k =>
      self.cap (saturating
        (self.currentFirstPathDelayMs.toNat * self.factor.get.toNat ^ k)) := by
  induction n generalizing self with
  | zero => rfl
  | succ n ih =>
    rw [Nat.mul_succ, self.firstPath_add_two hpath, ih _ rfl, List.range_succ_eq_map,
      List.map_cons, pow_zero, mul_one, saturating_toNat, List.map_map]
    refine List.cons_eq_cons.mpr ⟨rfl, List.map_congr_left ?_⟩
    intro k _
    rw [Function.comp_apply, Nat.succ_eq_add_one, ← saturating_mul_pow _ _ self.factor.pos,
      cap_afterTwo]
    rfl

omit [Abortable Err] in
/-- The pair follows the schedule, whatever the parameters. -/
theorem Builder.firstPath_withRetryPair (builder : Builder) (first second : ℕ → Except Err T)
    {k : ℕ} (hk : k < maxAttempts) :
    ((builder.withRetryPair first second).backoff.firstPath (fun _ => id)
      (2 * maxAttempts))[k]? = some (builder.schedule k) := by
  rw [(builder.withRetryPair first second).backoff.firstPath_eq rfl, List.getElem?_map,
    List.getElem?_range hk, Option.map_some, BackoffPairIterator.cap_eq, Builder.schedule]
  simp only [Builder.withRetryPair, RetryPairFn.new, BackoffPairIterator.new, toNat_saturating]
  rw [← mul, mul_sat (Nat.pow_pos builder.backoffFactor.pos), ← sat_min, saturating_sat]

/-! ### When the schedules meet -/

section Meet

variable {f i m k : ℕ}

/-- The item `k` of the iterator under `with_retry` is the delay `k` of the schedule, in
nanoseconds: `f` is the factor, `i` the initial delay in milliseconds, `m` the maximum. -/
def MeetAt (f i m k : ℕ) : Prop :=
  min m (sat u64Max (f * sat u64Max i ^ (k + 1)) * 10 ^ 6) =
    sat u64Max (min (m / 10 ^ 6) (i * f ^ k)) * 10 ^ 6

theorem meetAt_of_capped (hf : 0 < f) (hm : m = m / 10 ^ 6 * 10 ^ 6) (hi : m / 10 ^ 6 ≤ i)
    (hU : m / 10 ^ 6 ≤ u64Max) : MeetAt f i m k := by
  have hgrow : i ≤ i * f ^ k := Nat.le_mul_of_pos_right i (Nat.pow_pos hf)
  have hitem : sat u64Max i ≤ f * sat u64Max i ^ (k + 1) :=
    (Nat.le_self_pow k.succ_ne_zero _).trans (Nat.le_mul_of_pos_left _ hf)
  have hsat : m / 10 ^ 6 ≤ sat u64Max (f * sat u64Max i ^ (k + 1)) :=
    le_sat_iff.mpr ⟨(le_sat_iff.mpr ⟨hi, hU⟩).trans hitem, hU⟩
  unfold MeetAt
  rw [min_eq_left (hi.trans hgrow), sat_of_le hU, ← hm]
  apply min_eq_left
  rw [hm]
  exact Nat.mul_le_mul_right _ hsat

theorem meetAt_of_saturated (hf : 0 < f) (hi : u64Max ≤ i) (hm : u64Max ≤ m / 10 ^ 6) :
    MeetAt f i m k := by
  have hgrow : i ≤ i * f ^ k := Nat.le_mul_of_pos_right i (Nat.pow_pos hf)
  have hitem : u64Max ≤ f * u64Max ^ (k + 1) :=
    (Nat.le_self_pow k.succ_ne_zero _).trans (Nat.le_mul_of_pos_left _ hf)
  unfold MeetAt
  rw [sat_of_ge hi, sat_of_ge hitem, sat_of_ge (le_min hm (hi.trans hgrow))]
  apply min_eq_right
  exact (Nat.mul_le_mul_right _ hm).trans (Nat.div_mul_le_self m _)

/-- The first two items decide. -/
theorem parameters_of_meetAt (hf : 0 < f) (h0 : MeetAt f i m 0) (h1 : MeetAt f i m 1) :
    i = 0 ∨ (m = m / 10 ^ 6 * 10 ^ 6 ∧ m / 10 ^ 6 ≤ i) ∨ (f = 1 ∧ i = 1 ∧ 1 ≤ m / 10 ^ 6) ∨
      (u64Max ≤ i ∧ u64Max ≤ m / 10 ^ 6) := by
  unfold MeetAt at h0 h1
  simp only [pow_zero, mul_one, zero_add, pow_one] at h0 h1
  rcases le_or_gt u64Max i with hU | hU
  · -- the initial delay saturates, and so does every item
    have hitem : u64Max ≤ f * u64Max := Nat.le_mul_of_pos_left _ hf
    rw [sat_of_ge hU, sat_of_ge hitem] at h0
    unfold sat at h0
    omega
  · rw [sat_of_le hU.le] at h0 h1
    have hfi : i ≤ f * i := Nat.le_mul_of_pos_left _ hf
    rcases lt_or_ge i (m / 10 ^ 6) with hM | hM
    · -- the first item is not cut, so the factor is one; nor is the second, so the base is one
      have hfi' : f * i = i := by
        unfold sat at h0
        omega
      rcases Nat.eq_zero_or_pos i with hi | hi
      · exact Or.inl hi
      have hf1 : f = 1 := Nat.eq_of_mul_eq_mul_right hi (hfi'.trans (one_mul i).symm)
      subst hf1
      have hsq : i * i = i := by
        have hle : i ≤ i * i := Nat.le_mul_self i
        rw [one_mul, pow_two, mul_one] at h1
        unfold sat at h1
        omega
      have hi1 : i = 1 := Nat.eq_of_mul_eq_mul_right hi (hsq.trans (one_mul i).symm)
      omega
    · -- the first item is cut, and unless both are one the second as well
      rcases Nat.eq_zero_or_pos i with hi | hi
      · exact Or.inl hi
      rcases Nat.lt_or_ge (m / 10 ^ 6) (f * i) with hcut | hcut
      · unfold sat at h0
        omega
      · have hfi' : f * i = i := by omega
        have hf1 : f = 1 := Nat.eq_of_mul_eq_mul_right hi (hfi'.trans (one_mul i).symm)
        subst hf1
        rw [one_mul, pow_two, mul_one] at h1
        rcases Nat.lt_or_ge i 2 with hi2 | hi2
        · omega
        · have hsq : 2 * i ≤ i * i := Nat.mul_le_mul_right i hi2
          unfold sat at h1
          omega

theorem meetAt_iff (hf : 0 < f) : (∀ k < maxAttempts, MeetAt f i m k) ↔
    i = 0 ∨ (m = m / 10 ^ 6 * 10 ^ 6 ∧ m / 10 ^ 6 ≤ i) ∨ (f = 1 ∧ i = 1 ∧ 1 ≤ m / 10 ^ 6) ∨
      (u64Max ≤ i ∧ u64Max ≤ m / 10 ^ 6) := by
  constructor
  · intro h
    exact parameters_of_meetAt hf (h 0 (by decide)) (h 1 (by decide))
  · rintro (rfl | ⟨hm, hi⟩ | ⟨rfl, rfl, hm⟩ | ⟨hi, hm⟩) k -
    · simp [MeetAt, sat]
    · rcases le_total (m / 10 ^ 6) u64Max with hU | hU
      · exact meetAt_of_capped hf hm hi hU
      · exact meetAt_of_saturated hf (hU.trans hi) hU
    · have h1 : sat u64Max 1 = 1 := by decide
      unfold MeetAt
      rw [one_pow, mul_one, h1, one_pow, mul_one, min_eq_right hm, h1]
      omega
    · exact meetAt_of_saturated hf hi hm

end Meet

/-! ### The two retries of one builder -/

/-- The two retries of one builder wait alike exactly for the parameters of `SchedulesMeet`. -/
theorem same_schedule_iff {items : ExponentialBackoff} (hitems : items.Documented)
    (builder : Builder) {function : ℕ → Except Err T} (hf : ∀ n, Ordinary (function n))
    (first second : ℕ → Except Err T) :
    SameSchedule items builder function first second ↔ builder.SchedulesMeet := by
  refine Iff.trans ?_ (meetAt_iff builder.backoffFactor.pos)
  refine forall₂_congr fun k hk => ?_
  rw [builder.sleeps_withRetry items hf hk, hitems, ExponentialBackoff.documented,
    and_iff_left (builder.firstPath_withRetryPair first second hk), Option.some_inj]
  constructor
  · intro h
    have hnanos := congrArg Duration.nanos h
    rw [Duration.nanos_min, Duration.nanos_fromMillis, toNat_saturating, toNat_saturating,
      Builder.schedule, Duration.nanos_fromMillis, toNat_saturating] at hnanos
    exact hnanos
  · intro h
    apply Duration.ext_nanos
    rw [Duration.nanos_min, Duration.nanos_fromMillis, toNat_saturating, toNat_saturating,
      Builder.schedule, Duration.nanos_fromMillis, toNat_saturating]
    exact h

/-- One millisecond, a factor of one and a maximum of a second and a half millisecond. -/
theorem same_schedule_ones :
    SameSchedule ExponentialBackoff.documented
      ⟨Duration.fromMillis 1, ⟨1, by decide⟩, ⟨1000500000, by decide⟩⟩
      (fun _ => (.error () : Except Unit Unit)) (fun _ => .error ()) (fun _ => .error ()) :=
  (same_schedule_iff (fun _ _ _ _ => rfl) _ (fun _ => ⟨(), rfl, rfl, rfl⟩) _ _).mpr
    (by unfold Builder.SchedulesMeet; decide)

/-- One second, doubled up to a minute: `with_retry` waits two seconds before its first call, then
the full minute, where the pair waits one second, then two. -/
theorem with_retry_misses_schedule :
    ¬ SameSchedule ExponentialBackoff.documented
      ⟨Duration.fromMillis 1000, ⟨2, by decide⟩, Duration.fromMillis 60000⟩
      (fun _ => (.error () : Except Unit Unit)) (fun _ => .error ()) (fun _ => .error ()) := by
  intro h
  have h0 := (h 0 (by decide)).1
  revert h0
  decide +kernel

end Retry
end RelayerCore
