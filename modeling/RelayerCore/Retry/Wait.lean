import RelayerCore.Retry.Pair
import RelayerCore.Retry.Schedule

/-!
# The wait after a rate limit

After a rate-limited call `RetryFn` waits `rate_limit_wait` and then the usual delay, while
`RetryPairFn` waits `rate_limit_wait` in place of the usual delay.  Two runs are compared that
differ in one answer: in one of them it is a rate limit, in the other an ordinary error.
-/

namespace RelayerCore
namespace Retry

variable {T Err : Type} [Abortable Err]

/-! ### Waits and answers -/

/-- The time slept right before each call of `f`, in nanoseconds, when `slept` were slept before
the first act. -/
def waits {F : Type} [DecidableEq F] (f : F) : ℕ → List (Act F) → List ℕ
  | _, [] => []
  | slept, .sleep duration :: acts => waits f (slept + duration.nanos) acts
  | slept, .call g :: acts => if g = f then slept :: waits f 0 acts else waits f 0 acts

/-- An error that is retried after a rate limit. -/
def Limited (answer : Except Err T) : Prop :=
  ∃ err, answer = .error err ∧ Abortable.abortable err = false ∧ Abortable.rateLimit err = true

/-- An error that is retried. -/
def Retries (answer : Except Err T) : Prop :=
  ∃ err, answer = .error err ∧ Abortable.abortable err = false

/-- The answer is an error that asks for a longer wait. -/
def rateLimits : Except Err T → Bool
  | .ok _ => false
  | .error err => Abortable.rateLimit err

/-- The wait before the call of `f` that follows its call `n` is not shorter in the second run. -/
def NotShortened {F : Type} [DecidableEq F] (f : F) (n : ℕ) (ordinary limited : List (Act F)) :
    Prop :=
  ∀ wait, (waits f 0 ordinary)[n + 1]? = some wait →
    ∃ wait', (waits f 0 limited)[n + 1]? = some wait' ∧ wait ≤ wait'

/-- What a run did, over all its slots. -/
def RetryPairFn.Run.acts (run : RetryPairFn.Run T Err) : List (Act AlternationStep) :=
  run.slots.flatMap (·.acts)

/-- The same retry, except that the call `n` returns `answer`. -/
def RetryFn.answering (self : RetryFn T Err) (n : ℕ) (answer : Except Err T) : RetryFn T Err :=
  { self with function := Function.update self.function n answer }

/-- The same pair, except that the call `n` of the function `step` returns `answer`. -/
def RetryPairFn.answering (self : RetryPairFn T Err) (step : AlternationStep) (n : ℕ)
    (answer : Except Err T) : RetryPairFn T Err :=
  match step with
  | .first => { self with firstFunction := Function.update self.firstFunction n answer }
  | .second => { self with secondFunction := Function.update self.secondFunction n answer }

theorem Ordinary.retries {answer : Except Err T} (h : Ordinary answer) : Retries answer := by
  obtain ⟨err, herr, habort, -⟩ := h
  exact ⟨err, herr, habort⟩

theorem Limited.retries {answer : Except Err T} (h : Limited answer) : Retries answer := by
  obtain ⟨err, herr, habort, -⟩ := h
  exact ⟨err, herr, habort⟩

theorem Ordinary.rateLimits {answer : Except Err T} (h : Ordinary answer) :
    rateLimits answer = false := by
  obtain ⟨err, rfl, -, hrate⟩ := h
  exact hrate

theorem Limited.rateLimits {answer : Except Err T} (h : Limited answer) :
    rateLimits answer = true := by
  obtain ⟨err, rfl, -, hrate⟩ := h
  exact hrate

/-! ### One function -/

section RetryFn

/-- What is slept before the call `calls + k` on top of its delay. -/
def RetryFn.extra (self : RetryFn T Err) (calls slept : ℕ) : ℕ → ℕ
  | 0 => slept
  | k + 1 => if rateLimits (self.function (calls + k)) then self.rateLimitWait.nanos else 0

theorem RetryFn.extra_succ (self : RetryFn T Err) (calls slept k : ℕ) :
    self.extra calls slept (k + 1) =
      self.extra (calls + 1)
        (if rateLimits (self.function calls) then self.rateLimitWait.nanos else 0) k := by
  cases k with
  | zero => rfl
  | succ k =>
    have hshift : calls + 1 + k = calls + (k + 1) := by omega
    show (if rateLimits (self.function (calls + (k + 1))) then self.rateLimitWait.nanos else 0) =
      if rateLimits (self.function (calls + 1 + k)) then self.rateLimitWait.nanos else 0
    rw [hshift]

/-- The waits of a run: the call `k` is made when all before it were retried. -/
theorem RetryFn.waits_attempts (self : RetryFn T Err) (durations : List Duration)
    (calls slept k wait : ℕ) :
    (waits () slept (self.attempts durations calls).acts)[k]? = some wait ↔
      (∀ j < k, Retries (self.function (calls + j))) ∧
        ∃ duration, durations[k]? = some duration ∧
          wait = self.extra calls slept k + duration.nanos := by
  induction durations generalizing calls slept k with
  | nil => simp [RetryFn.attempts, waits]
  | cons duration rest ih =>
    cases k with
    | zero =>
      have hhead : ∃ acts, waits () slept (self.attempts (duration :: rest) calls).acts =
          (slept + duration.nanos) :: acts := by
        unfold RetryFn.attempts
        split
        · exact ⟨_, rfl⟩
        · split_ifs <;> exact ⟨_, rfl⟩
      obtain ⟨acts, hacts⟩ := hhead
      rw [hacts]
      simp [RetryFn.extra, eq_comm]
    | succ k =>
      rw [self.extra_succ, List.getElem?_cons_succ]
      by_cases hretries : Retries (self.function calls)
      · have htail : (waits () slept (self.attempts (duration :: rest) calls).acts)[k + 1]? =
            (waits () (if rateLimits (self.function calls) then self.rateLimitWait.nanos else 0)
              (self.attempts rest (calls + 1)).acts)[k]? := by
          obtain ⟨err, herr, habort⟩ := hretries
          cases hrate : Abortable.rateLimit err <;>
            simp [RetryFn.attempts, herr, habort, hrate, RetryFn.Run.after, waits, rateLimits]
        rw [htail, ih]
        refine and_congr_left fun _ => ?_
        constructor
        · intro h j hj
          cases j with
          | zero => exact hretries
          | succ j =>
            have hshift : calls + (j + 1) = calls + 1 + j := by omega
            rw [hshift]
            exact h j (by omega)
        · intro h j hj
          have hshift : calls + 1 + j = calls + (j + 1) := by omega
          rw [hshift]
          exact h (j + 1) (by omega)
      · -- the call ends the run
        have hend : (waits () slept (self.attempts (duration :: rest) calls).acts)[k + 1]? =
            none := by
          unfold RetryFn.attempts
          split
          · rfl
          · rename_i err herr
            have habort : Abortable.abortable err = true := by
              by_contra h
              exact hretries ⟨err, herr, Bool.eq_false_of_not_eq_true h⟩
            rw [if_pos habort]
            rfl
        rw [hend]
        refine iff_of_false (fun h => by cases h) ?_
        rintro ⟨h, -⟩
        exact hretries (h 0 (Nat.succ_pos k))

end RetryFn

/-! ### Two functions in turn -/

section RetryPairFn

def Locals.limited (l : Locals Err) : AlternationStep → Bool
  | .first => l.primaryFnRateLimitted
  | .second => l.secondaryFnRateLimitted

theorem RetryPairFn.acts_body (self : RetryPairFn T Err) (iteration : Iteration) (l : Locals Err) :
    (self.body iteration l).acts =
      if l.aborted iteration.alterationStep then []
      else [.sleep (if l.limited iteration.alterationStep then self.rateLimitWait
        else iteration.duration), .call iteration.alterationStep] := by
  unfold RetryPairFn.body
  cases iteration.alterationStep with
  | first =>
    exact apply_ite Pass.acts _ _ _
  | second =>
    exact apply_ite Pass.acts _ _ _

/-- The flags after a pass: a call sets the flag of its function after a rate limit and clears it
otherwise. -/
structure RetryPairFn.Flagged (retry : RetryPairFn T Err) (step : AlternationStep)
    (l l' : Locals Err) : Prop where
  other : l'.limited step.other = l.limited step.other
  own : l'.aborted step = false →
    l'.limited step = rateLimits (retry.function step (l.calls step))

/-- A pass that finds its function aborted already leaves the flags as they are. -/
theorem RetryPairFn.flagged_of_aborted {self : RetryPairFn T Err} {step : AlternationStep}
    {l l' : Locals Err} (hown : l.aborted step = true)
    (h : (if l.aborted step.other then .done (abortedWith l.lastAbortErr) else .goOn l :
      Flow T Err) = .goOn l') : self.Flagged step l l' := by
  by_cases hother : l.aborted step.other = true
  · rw [if_pos hother] at h
    cases h
  · rw [if_neg hother] at h
    cases h
    refine ⟨rfl, fun hfalse => ?_⟩
    rw [hown] at hfalse
    cases hfalse

/-- A pass that calls its function, with the variables it leaves after an abortable error, after a
rate limit, and after any other error. -/
theorem RetryPairFn.flagged_of_called {self : RetryPairFn T Err} {step : AlternationStep}
    {l l' limited failed : Locals Err} {aborted : Err → Locals Err}
    (h : (match self.function step (l.calls step) with
      | .ok res => .done (.returned (.ok res))
      | .error err =>
        if Abortable.abortable err then
          if l.aborted step.other then .done (abortedWith (some err)) else .goOn (aborted err)
        else if Abortable.rateLimit err then .goOn limited
        else .goOn failed : Flow T Err) = .goOn l')
    (haborted : ∀ err, (aborted err).aborted step = true ∧
      (aborted err).limited step.other = l.limited step.other)
    (hlimited : limited.limited step = true ∧ limited.limited step.other = l.limited step.other)
    (hfailed : failed.limited step = false ∧ failed.limited step.other = l.limited step.other) :
    self.Flagged step l l' := by
  cases hanswer : self.function step (l.calls step) with
  | ok res =>
    rw [hanswer] at h
    cases h
  | error err =>
    rw [hanswer] at h
    dsimp only at h
    split_ifs at h with habort hother hrate
    · cases h
      refine ⟨(haborted err).2, fun hfalse => ?_⟩
      rw [(haborted err).1] at hfalse
      cases hfalse
    · cases h
      refine ⟨hlimited.2, fun _ => ?_⟩
      rw [hlimited.1, hanswer]
      exact hrate.symm
    · cases h
      refine ⟨hfailed.2, fun _ => ?_⟩
      rw [hfailed.1, hanswer]
      exact (Bool.eq_false_of_not_eq_true hrate).symm

theorem RetryPairFn.flagged_firstArm {self : RetryPairFn T Err} {duration : Duration}
    {l l' : Locals Err} (h : (self.firstArm duration l).flow = .goOn l') :
    self.Flagged .first l l' := by
  unfold RetryPairFn.firstArm at h
  by_cases hown : l.primaryFnAborted = true
  · rw [if_pos hown] at h
    exact RetryPairFn.flagged_of_aborted hown h
  · rw [if_neg hown] at h
    dsimp only at h
    exact RetryPairFn.flagged_of_called h (fun _ => ⟨rfl, rfl⟩) ⟨rfl, rfl⟩ ⟨rfl, rfl⟩

theorem RetryPairFn.flagged_secondArm {self : RetryPairFn T Err} {duration : Duration}
    {l l' : Locals Err} (h : (self.secondArm duration l).flow = .goOn l') :
    self.Flagged .second l l' := by
  unfold RetryPairFn.secondArm at h
  by_cases hown : l.secondaryFnAborted = true
  · rw [if_pos hown] at h
    exact RetryPairFn.flagged_of_aborted hown h
  · rw [if_neg hown] at h
    dsimp only at h
    exact RetryPairFn.flagged_of_called h (fun _ => ⟨rfl, rfl⟩) ⟨rfl, rfl⟩ ⟨rfl, rfl⟩

theorem RetryPairFn.flagged_body {self : RetryPairFn T Err} {iteration : Iteration}
    {l l' : Locals Err} (h : (self.body iteration l).flow = .goOn l') :
    self.Flagged iteration.alterationStep l l' := by
  unfold RetryPairFn.body at h
  cases hstep : iteration.alterationStep with
  | first =>
    rw [hstep] at h
    exact RetryPairFn.flagged_firstArm h
  | second =>
    rw [hstep] at h
    exact RetryPairFn.flagged_secondArm h

/-- The slot of the call `k` of a function. -/
def callSlot : AlternationStep → ℕ → ℕ
  | .first, k => 2 * k
  | .second, k => 2 * k + 1

/-- The call before the call `k` of a function was rate limited. -/
def RetryPairFn.limitedBefore (self : RetryPairFn T Err) (step : AlternationStep) : ℕ → Bool
  | 0 => false
  | k + 1 => rateLimits (self.function step k)

/-- The wait before the call `k` of a function, in a slot with the delay `duration`. -/
def RetryPairFn.wait (self : RetryPairFn T Err) (step : AlternationStep) (k : ℕ)
    (duration : Duration) : Duration :=
  if self.limitedBefore step k then self.rateLimitWait else duration

/-- The flags at the start of the slot `i`. -/
def RetryPairFn.Flags (self : RetryPairFn T Err) (i : ℕ) (l : Locals Err) : Prop :=
  ∀ step, ¬ self.AbortedBefore step i →
    l.limited step = self.limitedBefore step (turnsBefore step i)

/-- A run over `iterations`, which begin at the slot `i`, waits `wait` before the call `k` of
`step`. -/
def RetryPairFn.WaitsAt (self : RetryPairFn T Err) (iterations : List Iteration) (i : ℕ)
    (step : AlternationStep) (k wait : ℕ) : Prop :=
  ∃ iteration, iterations[callSlot step k - i]? = some iteration ∧
    (∀ j, i ≤ j → j < callSlot step k → ¬ self.Succeeds j) ∧ self.Calls (callSlot step k) ∧
    wait = (self.wait step k iteration.duration).nanos

section Slots

variable {self : RetryPairFn T Err} {iteration : Iteration} {iterations : List Iteration}
  {l l' : Locals Err} {step : AlternationStep} {i k wait : ℕ}

theorem turn_callSlot (step : AlternationStep) (k : ℕ) : turn (callSlot step k) = step := by
  unfold turn
  cases step with
  | first => exact if_pos (Nat.mul_mod_right 2 k)
  | second =>
    refine if_neg ?_
    show ¬ (2 * k + 1) % 2 = 0
    omega

theorem callSlot_turnsBefore (i : ℕ) : callSlot (turn i) (turnsBefore (turn i) i) = i := by
  rw [turnsBefore_turn]
  unfold turn
  split
  · show 2 * (i / 2) = i
    omega
  · show 2 * (i / 2) + 1 = i
    omega

theorem callSlot_strictMono (step : AlternationStep) : StrictMono (callSlot step) := by
  intro j k h
  cases step
  · show 2 * j < 2 * k
    omega
  · show 2 * j + 1 < 2 * k + 1
    omega

theorem flags_init : self.Flags 0 .init := by
  intro step _
  cases step <;> rfl

/-- The slot after a pass. -/
theorem RetryPairFn.Flags.next (h : self.Flags i l) (hinv : self.Inv i l)
    (hinv' : self.Inv (i + 1) l') (hflag : self.Flagged (turn i) l l') :
    self.Flags (i + 1) l' := by
  unfold RetryPairFn.Flags
  rw [forall_step (turn i)]
  refine ⟨fun hno => ?_, ?_⟩
  · have hcall : self.Calls i := fun hbefore => hno (abortedBefore_mono (Nat.le_succ i) hbefore)
    have hown : l'.aborted (turn i) = false := by
      apply Bool.eq_false_of_not_eq_true
      exact fun htrue => hno ((hinv'.aborted _).mp htrue)
    rw [hflag.own hown, turnsBefore_succ, hinv.calls _ hcall]
    rfl
  · rw [abortedBefore_succ_other, turnsBefore_succ_other, hflag.other]
    exact h _

/-- A later wait is a wait of the rest of the run. -/
theorem waitsAt_cons (hi : i < callSlot step k) (hno : ¬ self.Succeeds i) :
    self.WaitsAt (iteration :: iterations) i step k wait ↔
      self.WaitsAt iterations (i + 1) step k wait := by
  have hindex : callSlot step k - i = callSlot step k - (i + 1) + 1 := by omega
  unfold RetryPairFn.WaitsAt
  rw [hindex, List.getElem?_cons_succ]
  refine exists_congr fun _ => and_congr_right fun _ => and_congr_left fun _ => ?_
  exact (forall_not_succeeds_iff hno).symm

/-- The wait in the first slot. -/
theorem waitsAt_head (hcall : self.Calls i) :
    self.WaitsAt (iteration :: iterations) i (turn i) (turnsBefore (turn i) i) wait ↔
      wait = (self.wait (turn i) (turnsBefore (turn i) i) iteration.duration).nanos := by
  unfold RetryPairFn.WaitsAt
  rw [callSlot_turnsBefore, Nat.sub_self]
  constructor
  · rintro ⟨it, hit, -, -, hwait⟩
    cases hit
    exact hwait
  · exact fun hwait => ⟨iteration, rfl, fun j hi hj => by omega, hcall, hwait⟩

/-- A function that has aborted is not waited for again. -/
theorem not_waitsAt_of_aborted {m : ℕ} (habort : self.AbortedBefore step m)
    (hm : m ≤ callSlot step k) : ¬ self.WaitsAt iterations i step k wait := by
  rintro ⟨-, -, -, hcall, -⟩
  apply hcall
  rw [turn_callSlot]
  exact abortedBefore_mono hm habort

/-- A success or the second abort leaves no later wait. -/
theorem not_waitsAt_of_ended (hend : self.Succeeds i ∨ self.BothAborted (i + 1))
    (hi : i < callSlot step k) : ¬ self.WaitsAt iterations i step k wait := by
  rcases hend with hsuccess | hboth
  · rintro ⟨-, -, hno, -, -⟩
    exact hno i (Nat.le_refl i) hi hsuccess
  · exact not_waitsAt_of_aborted ((bothAborted_iff step).mp hboth).1 hi

theorem lt_callSlot_succ (step : AlternationStep) (i k : ℕ) :
    i < callSlot step (turnsBefore step (i + 1) + k) := by
  cases step
  · show i < 2 * ((i + 1 + 1) / 2 + k)
    omega
  · show i < 2 * ((i + 1) / 2 + k) + 1
    omega

theorem eq_or_eq_other (step step' : AlternationStep) : step' = step ∨ step' = step.other := by
  cases step <;> cases step' <;> simp [AlternationStep.other]

theorem turn_ne_other (step : AlternationStep) : step ≠ step.other := by
  cases step <;> exact AlternationStep.noConfusion

/-- A slot that makes a call, and the acts after it. -/
theorem waits_called {acts : List (Act AlternationStep)} {slept : Duration}
    (hcall : self.Calls i)
    (hslept : slept = self.wait (turn i) (turnsBefore (turn i) i) iteration.duration)
    (hrest : ∀ k, (waits step 0 acts)[k]? = some wait ↔
      self.WaitsAt (iteration :: iterations) i step (turnsBefore step (i + 1) + k) wait) (k : ℕ) :
    (waits step 0 (.sleep slept :: .call (turn i) :: acts))[k]? = some wait ↔
      self.WaitsAt (iteration :: iterations) i step (turnsBefore step i + k) wait := by
  rcases eq_or_eq_other (turn i) step with rfl | rfl
  · have hacts : waits (turn i) 0 (.sleep slept :: .call (turn i) :: acts) =
        slept.nanos :: waits (turn i) 0 acts := by
      simp [waits]
    rw [hacts]
    cases k with
    | zero =>
      rw [Nat.add_zero, waitsAt_head hcall, ← hslept, List.getElem?_cons_zero, Option.some_inj]
      exact eq_comm
    | succ k =>
      have hshift : turnsBefore (turn i) i + (k + 1) = turnsBefore (turn i) (i + 1) + k := by
        rw [turnsBefore_succ]
        omega
      rw [hshift, List.getElem?_cons_succ]
      exact hrest k
  · have hacts : waits (turn i).other 0 (.sleep slept :: .call (turn i) :: acts) =
        waits (turn i).other 0 acts := by
      simp [waits, turn_ne_other]
    rw [hacts, ← turnsBefore_succ_other]
    exact hrest k

/-- A slot that makes no call. -/
theorem waits_skipped {acts : List (Act AlternationStep)} (hcall : ¬ self.Calls i)
    (hrest : ∀ k, (waits step 0 acts)[k]? = some wait ↔
      self.WaitsAt (iteration :: iterations) i step (turnsBefore step (i + 1) + k) wait) (k : ℕ) :
    (waits step 0 acts)[k]? = some wait ↔
      self.WaitsAt (iteration :: iterations) i step (turnsBefore step i + k) wait := by
  rcases eq_or_eq_other (turn i) step with rfl | rfl
  · have habort : self.AbortedBefore (turn i) i := Classical.not_not.mp hcall
    have hle : ∀ n, turnsBefore (turn i) i ≤ n → i ≤ callSlot (turn i) n := by
      intro n hn
      have := (callSlot_strictMono (turn i)).monotone hn
      rwa [callSlot_turnsBefore] at this
    have hsucc := turnsBefore_succ i
    rw [hrest]
    exact iff_of_false (not_waitsAt_of_aborted habort (hle _ (by omega)))
      (not_waitsAt_of_aborted habort (hle _ (by omega)))
  · rw [← turnsBefore_succ_other]
    exact hrest k

theorem acts_loop_cons (self : RetryPairFn T Err) (iteration : Iteration) (rest : List Iteration)
    (l : Locals Err) : (self.loop (iteration :: rest) l).acts =
      (self.body iteration l).acts ++
        match (self.body iteration l).flow with
        | .done _ => []
        | .goOn l' => (self.loop rest l').acts := by
  cases hflow : (self.body iteration l).flow with
  | done outcome => simp [RetryPairFn.Run.acts, RetryPairFn.loop, hflow]
  | goOn l' => simp [RetryPairFn.Run.acts, RetryPairFn.loop, hflow]

/-- The waits of a run over `iterations`, which begin at the slot `i`. -/
theorem waits_loop (iterations : List Iteration) {l : Locals Err}
    (hturns : ∀ (k : ℕ) (it : Iteration), iterations[k]? = some it →
      it.alterationStep = turn (i + k))
    (hinv : self.Inv i l) (hflags : self.Flags i l) (hboth : ¬ self.BothAborted i)
    (step : AlternationStep) (k wait : ℕ) :
    (waits step 0 (self.loop iterations l).acts)[k]? = some wait ↔
      self.WaitsAt iterations i step (turnsBefore step i + k) wait := by
  induction iterations generalizing i l k with
  | nil =>
    refine iff_of_false (fun h => by cases h) ?_
    rintro ⟨iteration, h, -⟩
    cases h
  | cons iteration rest ih =>
    have hturn : iteration.alterationStep = turn i := hturns 0 iteration rfl
    have hpass := self.passes_body iteration l
    rw [hturn] at hpass
    have hslot := slotPass_of_passes hinv hboth hpass
    have hacts := self.acts_body iteration l
    have hflagged : ∀ l', (self.body iteration l).flow = .goOn l' → self.Flagged (turn i) l l' := by
      intro l' h
      have := RetryPairFn.flagged_body h
      rwa [hturn] at this
    have hrest : ∀ l' k, self.Inv (i + 1) l' → self.Flags (i + 1) l' →
        ¬ self.BothAborted (i + 1) →
        ((waits step 0 (self.loop rest l').acts)[k]? = some wait ↔
          self.WaitsAt rest (i + 1) step (turnsBefore step (i + 1) + k) wait) := by
      intro l' k hinv' hflags' hboth'
      refine ih (fun j it hj => ?_) hinv' hflags' hboth' k
      have hshift : i + 1 + j = i + (j + 1) := by omega
      rw [hshift]
      exact hturns (j + 1) it hj
    have hended : self.Succeeds i ∨ self.BothAborted (i + 1) → ∀ k,
        (waits step 0 [])[k]? = some wait ↔
          self.WaitsAt (iteration :: rest) i step (turnsBefore step (i + 1) + k) wait := by
      intro hend k
      exact iff_of_false (fun h => by cases h)
        (not_waitsAt_of_ended hend (lt_callSlot_succ step i k))
    have hgoesOn : ∀ l', (self.body iteration l).flow = .goOn l' → self.Inv (i + 1) l' →
        ¬ self.Succeeds i → ¬ self.BothAborted (i + 1) → ∀ k,
        ((waits step 0 (self.loop rest l').acts)[k]? = some wait ↔
          self.WaitsAt (iteration :: rest) i step (turnsBefore step (i + 1) + k) wait) := by
      intro l' hflow hinv' hsuccess hboth' k
      rw [waitsAt_cons (lt_callSlot_succ step i k) hsuccess]
      exact hrest l' k hinv' (hflags.next hinv hinv' (hflagged l' hflow)) hboth'
    have hslept : self.Calls i → (self.body iteration l).acts =
        [.sleep (self.wait (turn i) (turnsBefore (turn i) i) iteration.duration),
          .call (turn i)] := by
      intro hcall
      have hown : ¬ l.aborted (turn i) = true := fun h => hcall ((hinv.aborted _).mp h)
      rw [hacts, hturn, if_neg hown, hflags _ hcall]
      rfl
    rw [acts_loop_cons]
    generalize self.body iteration l = pass at hslot hgoesOn hslept
    cases hslot with
    | skipped l' call both inv =>
      exact waits_skipped call (hgoesOn l' rfl inv (fun h => call h.1) both) k
    | success slept res call answer =>
      cases hslept call
      exact waits_called call rfl (hended (Or.inl ⟨call, res, answer⟩)) k
    | secondAbort slept err call answer abortable both =>
      cases hslept call
      exact waits_called call rfl (hended (Or.inr both)) k
    | goesOn slept l' call success both inv =>
      cases hslept call
      exact waits_called call rfl (hgoesOn l' rfl inv success both) k

end Slots

end RetryPairFn

/-! ### One answer changed -/

section Answering

variable {self : RetryPairFn T Err} {step : AlternationStep} {n : ℕ} {answer : Except Err T}

omit [Abortable Err] in
theorem RetryPairFn.function_answering (self : RetryPairFn T Err) (step s : AlternationStep)
    (n : ℕ) (answer : Except Err T) : (self.answering step n answer).function s =
      if s = step then Function.update (self.function s) n answer else self.function s := by
  cases step <;> cases s <;> rfl

omit [Abortable Err] in
theorem RetryPairFn.backoff_answering (self : RetryPairFn T Err) (step : AlternationStep) (n : ℕ)
    (answer : Except Err T) : (self.answering step n answer).backoff = self.backoff := by
  cases step <;> rfl

omit [Abortable Err] in
theorem RetryPairFn.maxAttempts_answering (self : RetryPairFn T Err) (step : AlternationStep)
    (n : ℕ) (answer : Except Err T) :
    (self.answering step n answer).maxAttempts = self.maxAttempts := by
  cases step <;> rfl

omit [Abortable Err] in
theorem RetryPairFn.rateLimitWait_answering (self : RetryPairFn T Err) (step : AlternationStep)
    (n : ℕ) (answer : Except Err T) :
    (self.answering step n answer).rateLimitWait = self.rateLimitWait := by
  cases step <;> rfl

omit [Abortable Err] in
/-- The changed answer. -/
theorem RetryPairFn.function_answering_self (self : RetryPairFn T Err) (step : AlternationStep)
    (n : ℕ) (answer : Except Err T) : (self.answering step n answer).function step n = answer := by
  rw [self.function_answering, if_pos rfl, Function.update_self]

omit [Abortable Err] in
/-- The changed answers, and all others. -/
theorem RetryPairFn.answer_answering (self : RetryPairFn T Err) (step : AlternationStep) (n i : ℕ)
    (answer answer' : Except Err T) :
    ((self.answering step n answer).answer i = answer ∧
      (self.answering step n answer').answer i = answer') ∨
    (self.answering step n answer).answer i = (self.answering step n answer').answer i := by
  unfold RetryPairFn.answer
  rw [self.function_answering, self.function_answering]
  by_cases hturn : turn i = step
  · rw [if_pos hturn, if_pos hturn]
    by_cases hn : i / 2 = n
    · rw [hn, Function.update_self, Function.update_self]
      exact Or.inl ⟨rfl, rfl⟩
    · rw [Function.update_of_ne hn, Function.update_of_ne hn]
      exact Or.inr rfl
  · rw [if_neg hturn, if_neg hturn]
    exact Or.inr rfl

theorem Retries.not_aborts (h : Retries answer) : ¬ Aborts answer := by
  obtain ⟨err, rfl, hfalse⟩ := h
  rintro ⟨err', herr', htrue⟩
  cases herr'
  rw [hfalse] at htrue
  cases htrue

/-- Which error is retried changes neither the aborts nor the successes. -/
theorem answering_congr {answer' : Except Err T} (h : Retries answer) (h' : Retries answer')
    (i : ℕ) :
    ((self.answering step n answer).Calls i ↔ (self.answering step n answer').Calls i) ∧
    ((self.answering step n answer).Succeeds i ↔ (self.answering step n answer').Succeeds i) := by
  have haborts : ∀ j, Aborts ((self.answering step n answer).answer j) ↔
      Aborts ((self.answering step n answer').answer j) := by
    intro j
    rcases self.answer_answering step n j answer answer' with ⟨ha, ha'⟩ | heq
    · rw [ha, ha']
      exact iff_of_false h.not_aborts h'.not_aborts
    · rw [heq]
  have hcalls : (self.answering step n answer).Calls i ↔
      (self.answering step n answer').Calls i := by
    refine not_congr (exists_congr fun j => ?_)
    rw [haborts]
  refine ⟨hcalls, and_congr hcalls ?_⟩
  rcases self.answer_answering step n i answer answer' with ⟨ha, ha'⟩ | heq
  · obtain ⟨err, herr, -⟩ := h
    obtain ⟨err', herr', -⟩ := h'
    rw [ha, ha', herr, herr']
    simp
  · rw [heq]

end Answering

/-! ### The two runs -/

/-- The run makes a call in the slot `i`. -/
def RetryPairFn.Reaches (self : RetryPairFn T Err) (i : ℕ) : Prop :=
  (∀ j < i, ¬ self.Succeeds j) ∧ self.Calls i

/-- The waits of a whole run. -/
theorem waits_retry (self : RetryPairFn T Err) (hpath : self.backoff.backoffPath = .first)
    (jitter : ℕ → UInt64 → UInt64) (step : AlternationStep) (k wait : ℕ) :
    (waits step 0 (self.retry jitter).acts)[k]? = some wait ↔
      ∃ iteration, (self.backoff.take jitter self.maxAttempts)[callSlot step k]? =
          some iteration ∧ self.Reaches (callSlot step k) ∧
        wait = (self.wait step k iteration.duration).nanos := by
  have hboth : ¬ self.BothAborted 0 := fun h => not_abortedBefore_zero h.1
  have hloop := waits_loop (self.backoff.take jitter self.maxAttempts)
    (fun j it hj => alterationStep_take jitter self.backoff self.maxAttempts 0 j hpath it hj)
    inv_init flags_init hboth step k wait
  have hzero : turnsBefore step 0 + k = k := by
    cases step <;> exact Nat.zero_add k
  rw [hzero] at hloop
  refine hloop.trans (exists_congr fun it => and_congr_right fun _ => ?_)
  unfold RetryPairFn.Reaches
  rw [and_assoc]
  refine and_congr_left fun _ => ?_
  exact ⟨fun h j hj => h j (Nat.zero_le j) hj, fun h j _ hj => h j hj⟩

/-- A pair waits no shorter after a rate limit exactly when the delay of the next call, if there is
one, is at most `rate_limit_wait`. -/
theorem not_shortened_pair_iff (self : RetryPairFn T Err)
    (hpath : self.backoff.backoffPath = .first) (jitter : ℕ → UInt64 → UInt64)
    (step : AlternationStep) (n : ℕ) {ordinary limited : Except Err T}
    (hordinary : Ordinary ordinary) (hlimited : Limited limited) :
    NotShortened step n ((self.answering step n ordinary).retry jitter).acts
        ((self.answering step n limited).retry jitter).acts ↔
      ∀ iteration, (self.backoff.take jitter self.maxAttempts)[callSlot step (n + 1)]? =
          some iteration → (self.answering step n ordinary).Reaches (callSlot step (n + 1)) →
        iteration.duration ≤ self.rateLimitWait := by
  have hpath' : ∀ answer, (self.answering step n answer).backoff.backoffPath = .first := by
    intro answer
    rw [self.backoff_answering]
    exact hpath
  have hwait : ∀ duration,
      (self.answering step n ordinary).wait step (n + 1) duration = duration := by
    intro duration
    apply if_neg
    rw [RetryPairFn.limitedBefore, self.function_answering_self, hordinary.rateLimits]
    exact Bool.false_ne_true
  have hwait' : ∀ duration,
      (self.answering step n limited).wait step (n + 1) duration = self.rateLimitWait := by
    intro duration
    rw [RetryPairFn.wait, RetryPairFn.limitedBefore, self.function_answering_self,
      hlimited.rateLimits, if_pos rfl, self.rateLimitWait_answering]
  have hreaches : (self.answering step n ordinary).Reaches (callSlot step (n + 1)) ↔
      (self.answering step n limited).Reaches (callSlot step (n + 1)) := by
    refine and_congr (forall₂_congr fun j _ => not_congr ?_) ?_
    · exact (answering_congr hordinary.retries hlimited.retries j).2
    · exact (answering_congr hordinary.retries hlimited.retries _).1
  unfold NotShortened
  simp only [waits_retry _ (hpath' _), self.backoff_answering, self.maxAttempts_answering, hwait,
    hwait']
  constructor
  · intro h it hit hreach
    obtain ⟨wait', ⟨it', -, -, rfl⟩, hle⟩ := h it.duration.nanos ⟨it, hit, hreach, rfl⟩
    exact hle
  · rintro h wait ⟨it, hit, hreach, rfl⟩
    exact ⟨self.rateLimitWait.nanos, ⟨it, hit, hreaches.mp hreach, rfl⟩, h it hit hreach⟩

/-- One function waits no shorter after a rate limit. -/
theorem not_shortened_retry (self : RetryFn T Err) (n : ℕ) {ordinary limited : Except Err T}
    (hordinary : Ordinary ordinary) (hlimited : Limited limited) :
    NotShortened () n (self.answering n ordinary).retry.acts
      (self.answering n limited).retry.acts := by
  have hretries : ∀ j, Retries ((self.answering n ordinary).function j) →
      Retries ((self.answering n limited).function j) := by
    intro j
    show Retries (Function.update self.function n ordinary j) →
      Retries (Function.update self.function n limited j)
    by_cases hj : j = n
    · rw [hj, Function.update_self, Function.update_self]
      exact fun _ => hlimited.retries
    · rw [Function.update_of_ne hj, Function.update_of_ne hj]
      exact id
  have hextra : (self.answering n ordinary).extra 0 0 (n + 1) = 0 := by
    apply if_neg
    rw [Nat.zero_add]
    show ¬ rateLimits (Function.update self.function n ordinary n) = true
    rw [Function.update_self, hordinary.rateLimits]
    exact Bool.false_ne_true
  intro wait hwait
  obtain ⟨hbefore, duration, hduration, rfl⟩ :=
    (RetryFn.waits_attempts _ _ 0 0 (n + 1) wait).mp hwait
  refine ⟨_, (RetryFn.waits_attempts _ _ 0 0 (n + 1) _).mpr ⟨?_, duration, hduration, rfl⟩, ?_⟩
  · exact fun j hj => hretries _ (hbefore j hj)
  · rw [hextra, Nat.zero_add]
    exact Nat.le_add_left _ _

/-- With either retry of a builder, the wait before the next call after the call `n` is not shorter
when that call returns `limited` instead of `ordinary`. -/
def Builder.NeverShortens (self : Builder) (items : ExponentialBackoff)
    (function first second : ℕ → Except Err T) (jitter : ℕ → UInt64 → UInt64)
    (step : AlternationStep) (n : ℕ) (ordinary limited : Except Err T) : Prop :=
  NotShortened () n ((self.withRetry items function).answering n ordinary).retry.acts
    ((self.withRetry items function).answering n limited).retry.acts ∧
  NotShortened step n
    (((self.withRetryPair first second).answering step n ordinary).retry jitter).acts
    (((self.withRetryPair first second).answering step n limited).retry jitter).acts

/-- A rate limit shortens no wait exactly when the back-off delay due at the next call of that
function of the pair, if there is one, is at most ten seconds. -/
theorem never_shortens_iff (builder : Builder) (items : ExponentialBackoff)
    (function first second : ℕ → Except Err T) (jitter : ℕ → UInt64 → UInt64)
    (step : AlternationStep) (n : ℕ) {ordinary limited : Except Err T}
    (hordinary : Ordinary ordinary) (hlimited : Limited limited) :
    builder.NeverShortens items function first second jitter step n ordinary limited ↔
      ∀ iteration,
        ((BackoffPairIterator.new builder.initialDelay builder.backoffFactor
          builder.maxDelay).take jitter maxAttempts)[callSlot step (n + 1)]? = some iteration →
        ((builder.withRetryPair first second).answering step n ordinary).Reaches
          (callSlot step (n + 1)) →
        iteration.duration ≤ Duration.fromSecs rateLimitWaitSecs := by
  unfold Builder.NeverShortens
  rw [and_iff_right (not_shortened_retry _ n hordinary hlimited)]
  exact not_shortened_pair_iff (builder.withRetryPair first second) rfl jitter step n hordinary
    hlimited

/-- An error that may be a rate limit. -/
structure Failure where
  rateLimit : Bool
  deriving DecidableEq

instance : Abortable Failure where
  rateLimit := Failure.rateLimit

/-- One second, doubled up to five seconds. -/
theorem never_shortens_five_seconds :
    Builder.NeverShortens
      ⟨Duration.fromMillis 1000, ⟨2, by decide⟩, Duration.fromMillis 5000⟩
      ExponentialBackoff.documented (fun _ => (.error ⟨false⟩ : Except Failure Unit))
      (fun _ => .error ⟨false⟩) (fun _ => .error ⟨false⟩) (fun _ => id) .first 0
      (.error ⟨false⟩) (.error ⟨true⟩) := by
  refine (never_shortens_iff _ _ _ _ _ _ _ _ ⟨_, rfl, rfl, rfl⟩ ⟨_, rfl, rfl, rfl⟩).mpr ?_
  intro iteration hiteration _
  revert hiteration
  have htake : ((BackoffPairIterator.new (Duration.fromMillis 1000) ⟨2, by decide⟩
      (Duration.fromMillis 5000)).take (fun _ => id) maxAttempts)[callSlot .first (0 + 1)]? =
        some ⟨Duration.fromMillis 2000, .first⟩ := by
    decide +kernel
  rw [htake]
  rintro ⟨⟩
  decide

/-- A minute, doubled: after an ordinary error the first function waits two minutes, after a rate
limit ten seconds. -/
theorem rate_limit_shortens_two_minutes :
    ¬ Builder.NeverShortens
      ⟨Duration.fromMillis 60000, ⟨2, by decide⟩, Duration.fromMillis 600000⟩
      ExponentialBackoff.documented (fun _ => (.error ⟨false⟩ : Except Failure Unit))
      (fun _ => .error ⟨false⟩) (fun _ => .error ⟨false⟩) (fun _ => id) .first 0
      (.error ⟨false⟩) (.error ⟨true⟩) := by
  rintro ⟨-, h⟩
  obtain ⟨wait, hwait, hle⟩ := h (120 * 10 ^ 9) (by decide +kernel)
  have hten : some (10 * 10 ^ 9) = some wait := by
    rw [← hwait]
    decide +kernel
  cases hten
  revert hle
  decide

end Retry
end RelayerCore
