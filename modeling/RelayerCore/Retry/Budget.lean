import RelayerCore.Retry.Pair

/-!
# How many calls stand behind `MaxAttempts`

`RetryFn.retry` gives up only after `max_attempts` calls.  `RetryPairFn.retry` counts slots, not
calls: once a function has aborted, its slots pass without a call, and the other function gets
only its own half of what is left.
-/

namespace RelayerCore
namespace Retry

variable {T Err : Type} [Abortable Err]

/-- The number of calls a run made. -/
def RetryFn.Run.calls (run : RetryFn.Run T Err) : ℕ := run.acts.countP Act.isCall

/-- The number of calls a run made to the two functions. -/
def RetryPairFn.Run.calls (run : RetryPairFn.Run T Err) : ℕ :=
  (run.slots.flatMap Slot.acts).countP Act.isCall

/-- The budget is spent on calls: the run ends before it is used up, by a success or the second
abort, or no function aborts with a slot of its own left. -/
def RetryPairFn.SpendsBudget (self : RetryPairFn T Err) : Prop :=
  (∃ i < self.maxAttempts, self.Succeeds i) ∨ self.BothAborted self.maxAttempts ∨
    ∀ j, j + 2 < self.maxAttempts → ¬ Aborts (self.answer j)

/-! ### One function -/

omit [Abortable Err] in
theorem RetryFn.Run.calls_after (run : RetryFn.Run T Err) (acts : List (Act Unit)) :
    (run.after acts).calls = acts.countP Act.isCall + run.calls := List.countP_append

theorem RetryFn.calls_attempts (self : RetryFn T Err) (durations : List Duration) (calls : ℕ)
    (h : (self.attempts durations calls).result = .error .maxAttempts) :
    (self.attempts durations calls).calls = durations.length := by
  induction durations generalizing calls with
  | nil => rfl
  | cons duration rest ih =>
    unfold RetryFn.attempts at h ⊢
    cases hanswer : self.function calls with
    | ok res =>
      rw [hanswer] at h
      cases h
    | error err =>
      simp only [hanswer] at h ⊢
      by_cases habort : Abortable.abortable err = true
      · rw [if_pos habort] at h
        cases h
      · rw [if_neg habort] at h ⊢
        by_cases hrate : Abortable.rateLimit err = true
        · rw [if_pos hrate] at h ⊢
          rw [RetryFn.Run.calls_after, ih (calls + 1) h, List.length_cons, Nat.add_comm]
          rfl
        · rw [if_neg hrate] at h ⊢
          rw [RetryFn.Run.calls_after, ih (calls + 1) h, List.length_cons, Nat.add_comm]
          rfl

/-- A single function that runs out of attempts was called `max_attempts` times. -/
theorem RetryFn.calls_retry (self : RetryFn T Err)
    (h : self.retry.result = .error .maxAttempts) : self.retry.calls = self.maxAttempts := by
  have hlen : ((List.range self.maxAttempts).map self.backoff).length = self.maxAttempts := by
    rw [List.length_map, List.length_range]
  exact (self.calls_attempts _ 0 h).trans hlen

/-! ### Two functions -/

theorem sum_eq_length_iff {l : List ℕ} (h : ∀ x ∈ l, x ≤ 1) :
    l.sum ≤ l.length ∧ (l.sum = l.length ↔ ∀ x ∈ l, x = 1) := by
  induction l with
  | nil => simp
  | cons x l ih =>
    obtain ⟨hle, hiff⟩ := ih fun y hy => h y (List.mem_cons_of_mem x hy)
    have hx : x ≤ 1 := h x List.mem_cons_self
    rw [List.sum_cons, List.length_cons, List.forall_mem_cons, ← hiff]
    omega

theorem countP_isCall {F : Type} (acts : List (Act F)) :
    acts.countP Act.isCall = (acts.filterMap Act.called?).length := by
  induction acts with
  | nil => rfl
  | cons act acts ih =>
    cases act with
    | sleep duration => exact ih
    | call function =>
      rw [List.countP_cons_of_pos rfl, ih]
      rfl

variable {self : RetryPairFn T Err} {run : RetryPairFn.Run T Err}

/-- A run that reached all its slots made as many calls if and only if every slot made one. -/
theorem calls_eq_iff (h : self.Reference run) (hlen : run.slots.length = self.maxAttempts) :
    run.calls = self.maxAttempts ↔ ∀ i < self.maxAttempts, self.Calls i := by
  have hslot : ∀ (i : ℕ) (slot : Slot Err), run.slots[i]? = some slot →
      (slot.acts.countP Act.isCall ≤ 1 ∧ (slot.acts.countP Act.isCall = 1 ↔ self.Calls i)) := by
    intro i slot hi
    rw [countP_isCall]
    by_cases hcall : self.Calls i
    · rw [(h.calls i slot hi).1 hcall]
      exact ⟨Nat.le_refl 1, iff_of_true rfl hcall⟩
    · rw [(h.calls i slot hi).2 hcall]
      exact ⟨Nat.zero_le 1, iff_of_false Nat.zero_ne_one hcall⟩
  have hsum : run.calls = (run.slots.map fun slot => slot.acts.countP Act.isCall).sum := by
    unfold RetryPairFn.Run.calls
    rw [List.countP_flatMap]
    rfl
  have hle : ∀ x ∈ run.slots.map (fun slot => slot.acts.countP Act.isCall), x ≤ 1 := by
    intro x hx
    obtain ⟨slot, hmem, rfl⟩ := List.mem_map.mp hx
    obtain ⟨i, hi⟩ := List.mem_iff_getElem?.mp hmem
    exact (hslot i slot hi).1
  have hiff := (sum_eq_length_iff hle).2
  rw [List.length_map, hlen, ← hsum] at hiff
  rw [hiff]
  constructor
  · intro hall i hi
    have hi' : i < run.slots.length := by omega
    refine (hslot i _ (List.getElem?_eq_getElem hi')).2.mp (hall _ ?_)
    exact List.mem_map.mpr ⟨_, List.getElem_mem hi', rfl⟩
  · intro hall x hx
    obtain ⟨slot, hmem, rfl⟩ := List.mem_map.mp hx
    obtain ⟨i, hi⟩ := List.mem_iff_getElem?.mp hmem
    have hi' : i < run.slots.length := (List.getElem?_eq_some_iff.mp hi).1
    exact (hslot i slot hi).2.mpr (hall i (by omega))

theorem length_slots_of_maxAttempts (h : self.Reference run)
    (hfail : ∀ i < self.maxAttempts, ¬ self.Succeeds i)
    (hboth : ¬ self.BothAborted self.maxAttempts) : run.slots.length = self.maxAttempts := by
  rcases lt_trichotomy run.slots.length self.maxAttempts with hlt | heq | hlt
  · have hreach := (h.reached run.slots.length).mpr ⟨hlt, fun j hj => hfail j (by omega),
      fun hb => hboth (bothAborted_mono hlt.le hb)⟩
    exact absurd hreach (Nat.lt_irrefl _)
  · exact heq
  · exact absurd ((h.reached self.maxAttempts).mp hlt).1 (Nat.lt_irrefl _)

theorem turn_add_two (i : ℕ) : turn (i + 2) = turn i := by
  rw [turn_succ, turn_succ]
  cases turn i <;> rfl

/-- Every slot makes its call if and only if no function aborts with a slot of its own left. -/
theorem forall_calls_iff (m : ℕ) : (∀ i < m, self.Calls i) ↔
    ∀ j, j + 2 < m → ¬ Aborts (self.answer j) := by
  constructor
  · intro h j hj habort
    exact h (j + 2) hj ⟨j, by omega, (turn_add_two j).symm, habort⟩
  · rintro h i hi ⟨j, hj, hturn, habort⟩
    rcases Nat.eq_or_lt_of_le hj with hsucc | hlt
    · rw [← hsucc, Nat.succ_eq_add_one, turn_succ] at hturn
      cases hj : turn j <;> rw [hj] at hturn <;> cases hturn
    · exact h j (by omega) habort

/-- `MaxAttempts` stands for `max_attempts` calls exactly if the budget is spent on calls; for a
single function it always does. -/
theorem max_attempts_made_iff (initialDelay : Duration) (factor : NonZeroU64) (maxDelay : Duration)
    (firstFunction secondFunction : ℕ → Except Err T) (maxAttempts : ℕ)
    (jitter : ℕ → UInt64 → UInt64) :
    let self : RetryPairFn T Err :=
      { RetryPairFn.new (.new initialDelay factor maxDelay) firstFunction secondFunction with
        maxAttempts := maxAttempts }
    (((self.retry jitter).outcome = .returned (.error .maxAttempts) →
      (self.retry jitter).calls = self.maxAttempts) ↔ self.SpendsBudget) ∧
    ∀ single : RetryFn T Err, single.retry.result = .error .maxAttempts →
      single.retry.calls = single.maxAttempts := by
  intro self
  refine ⟨?_, fun single h => single.calls_retry h⟩
  have href : self.Reference (self.retry jitter) := reference_retry self rfl jitter
  rw [href.maxAttempts]
  constructor
  · intro h
    by_cases hsuccess : ∃ i < self.maxAttempts, self.Succeeds i
    · exact Or.inl hsuccess
    by_cases hboth : self.BothAborted self.maxAttempts
    · exact Or.inr (Or.inl hboth)
    have hfail : ∀ i < self.maxAttempts, ¬ self.Succeeds i :=
      fun i hi hs => hsuccess ⟨i, hi, hs⟩
    have hlen := length_slots_of_maxAttempts href hfail hboth
    exact Or.inr (Or.inr ((forall_calls_iff _).mp ((calls_eq_iff href hlen).mp (h ⟨hfail, hboth⟩))))
  · rintro h ⟨hfail, hboth⟩
    have hlen := length_slots_of_maxAttempts href hfail hboth
    rcases h with ⟨i, hi, hs⟩ | hall | habort
    · exact absurd hs (hfail i hi)
    · exact absurd hall hboth
    · exact (calls_eq_iff href hlen).mpr ((forall_calls_iff _).mpr habort)

/-- The error of the crate's tests: abortable or not. -/
structure TestError where
  abort : Bool

instance : Abortable TestError where
  abortable err := err.abort

/-- The first function aborts at once and the second always fails: `MaxAttempts` after eleven calls
of twenty. -/
theorem max_attempts_after_eleven_calls :
    ¬ (∀ builder : Builder, ∀ firstFunction secondFunction : ℕ → Except TestError Unit,
      ∀ jitter : ℕ → UInt64 → UInt64,
      ((builder.withRetryPair firstFunction secondFunction).retry jitter).outcome =
          .returned (.error .maxAttempts) →
        ((builder.withRetryPair firstFunction secondFunction).retry jitter).calls =
          maxAttempts) := by
  intro h
  have hcalls := h ⟨Duration.fromMillis 1, ⟨2, by decide⟩, Duration.fromMillis 10⟩
    (fun _ => .error ⟨true⟩) (fun _ => .error ⟨false⟩) (fun _ => id) rfl
  revert hcalls
  decide

end Retry
end RelayerCore
