import RelayerCore.Retry.Model

/-!
# What `RetryPairFn.retry` computes

The slots `0, 1, 2, ...` belong to the two functions in turn, and a slot makes a call unless its
function has already aborted.  The first success, or the second abort, ends the run.  The
reference below says so in terms of the answers alone; one lemma sums up what a pass through the
loop body can do, and every flag follows from it.
-/

namespace RelayerCore
namespace Retry

variable {T Err : Type} [Abortable Err]

/-! ### The reference -/

def AlternationStep.other : AlternationStep → AlternationStep
  | .first => .second
  | .second => .first

/-- The function whose slot `i` is. -/
def turn (i : ℕ) : AlternationStep := if i % 2 = 0 then .first else .second

def RetryPairFn.function (self : RetryPairFn T Err) : AlternationStep → ℕ → Except Err T
  | .first => self.firstFunction
  | .second => self.secondFunction

/-- The answer in the slot `i` to a function called in all its slots so far. -/
def RetryPairFn.answer (self : RetryPairFn T Err) (i : ℕ) : Except Err T :=
  self.function (turn i) (i / 2)

/-- The answer is an abortable error. -/
def Aborts (answer : Except Err T) : Prop :=
  ∃ err, answer = .error err ∧ Abortable.abortable err = true

/-- A function has returned an abortable error in a slot before `i`. -/
def RetryPairFn.AbortedBefore (self : RetryPairFn T Err) (step : AlternationStep) (i : ℕ) : Prop :=
  ∃ j < i, turn j = step ∧ Aborts (self.answer j)

def RetryPairFn.BothAborted (self : RetryPairFn T Err) (i : ℕ) : Prop :=
  self.AbortedBefore .first i ∧ self.AbortedBefore .second i

/-- The slot `i` makes a call. -/
def RetryPairFn.Calls (self : RetryPairFn T Err) (i : ℕ) : Prop :=
  ¬ self.AbortedBefore (turn i) i

/-- The slot `i` makes a call that succeeds. -/
def RetryPairFn.Succeeds (self : RetryPairFn T Err) (i : ℕ) : Prop :=
  self.Calls i ∧ ∃ res, self.answer i = .ok res

/-- The function an act calls. -/
def Act.called? {F : Type} : Act F → Option F
  | .sleep _ => none
  | .call function => some function

/-- A run does in its slots and returns what the answers say. -/
structure RetryPairFn.Reference (retry : RetryPairFn T Err) (run : RetryPairFn.Run T Err) :
    Prop where
  ok : ∀ res, run.outcome = .returned (.ok res) ↔
    ∃ i < retry.maxAttempts, retry.Calls i ∧ retry.answer i = .ok res ∧
      (∀ j < i, ¬ retry.Succeeds j) ∧ ¬ retry.BothAborted i
  aborted : ∀ err, run.outcome = .returned (.error (.aborted err)) ↔
    ∃ i < retry.maxAttempts, retry.Calls i ∧ retry.answer i = .error err ∧
      Abortable.abortable err = true ∧ retry.BothAborted (i + 1) ∧ ∀ j < i, ¬ retry.Succeeds j
  maxAttempts : run.outcome = .returned (.error .maxAttempts) ↔
    (∀ i < retry.maxAttempts, ¬ retry.Succeeds i) ∧ ¬ retry.BothAborted retry.maxAttempts
  expects : run.outcome ≠ .panicked
  /-- The run reaches a slot unless a success or the second abort came before it. -/
  reached : ∀ i, i < run.slots.length ↔
    i < retry.maxAttempts ∧ (∀ j < i, ¬ retry.Succeeds j) ∧ ¬ retry.BothAborted i
  turns : ∀ (i : ℕ) (slot : Slot Err), run.slots[i]? = some slot →
    slot.iteration.alterationStep = turn i
  calls : ∀ (i : ℕ) (slot : Slot Err), run.slots[i]? = some slot →
    (retry.Calls i → slot.acts.filterMap Act.called? = [turn i]) ∧
    (¬ retry.Calls i → slot.acts.filterMap Act.called? = [])
  /-- The early returns at the top of the two arms are not taken. -/
  early : ∀ (i : ℕ) (slot : Slot Err), run.slots[i]? = some slot →
    ¬ (slot.locals.primaryFnAborted = true ∧ slot.locals.secondaryFnAborted = true)

/-! ### What a pass can do -/

section Body

def Locals.aborted (l : Locals Err) : AlternationStep → Bool
  | .first => l.primaryFnAborted
  | .second => l.secondaryFnAborted

def Locals.calls (l : Locals Err) : AlternationStep → ℕ
  | .first => l.firstCalls
  | .second => l.secondCalls

/-- `l'` is `l` after one more call of a function, by which it has aborted or not. -/
structure Locals.Called (l l' : Locals Err) (step : AlternationStep) (aborted : Bool) : Prop where
  aborted : l'.aborted step = aborted
  aborted_other : l'.aborted step.other = l.aborted step.other
  calls : l'.calls step = l.calls step + 1
  calls_other : l'.calls step.other = l.calls step.other

/-- The passes through the loop body in a slot of the function `step`. -/
inductive RetryPairFn.Passes (self : RetryPairFn T Err) (step : AlternationStep) (l : Locals Err) :
    Pass T Err → Prop
  | early (own : l.aborted step = true) (other : l.aborted step.other = true) :
    Passes self step l ⟨[], .done (abortedWith l.lastAbortErr)⟩
  | skipped (own : l.aborted step = true) (other : l.aborted step.other = false) :
    Passes self step l ⟨[], .goOn l⟩
  | success (wait : Duration) (res : T) (own : l.aborted step = false)
      (answer : self.function step (l.calls step) = .ok res) :
    Passes self step l ⟨[.sleep wait, .call step], .done (.returned (.ok res))⟩
  | secondAbort (wait : Duration) (err : Err) (own : l.aborted step = false)
      (other : l.aborted step.other = true)
      (answer : self.function step (l.calls step) = .error err)
      (abortable : Abortable.abortable err = true) :
    Passes self step l ⟨[.sleep wait, .call step], .done (.returned (.error (.aborted err)))⟩
  | firstAbort (wait : Duration) (err : Err) (l' : Locals Err) (own : l.aborted step = false)
      (other : l.aborted step.other = false)
      (answer : self.function step (l.calls step) = .error err)
      (abortable : Abortable.abortable err = true) (called : l.Called l' step true) :
    Passes self step l ⟨[.sleep wait, .call step], .goOn l'⟩
  | failed (wait : Duration) (err : Err) (l' : Locals Err) (own : l.aborted step = false)
      (answer : self.function step (l.calls step) = .error err)
      (abortable : Abortable.abortable err = false) (called : l.Called l' step false) :
    Passes self step l ⟨[.sleep wait, .call step], .goOn l'⟩

/-- A pass that finds its function aborted already. -/
theorem RetryPairFn.passes_aborted {self : RetryPairFn T Err} {step : AlternationStep}
    {l : Locals Err} (hown : l.aborted step = true) : self.Passes step l
      ⟨[], if l.aborted step.other then .done (abortedWith l.lastAbortErr) else .goOn l⟩ := by
  by_cases hother : l.aborted step.other = true
  · rw [if_pos hother]
    exact .early hown hother
  · rw [if_neg hother]
    exact .skipped hown (Bool.eq_false_of_not_eq_true hother)

/-- A pass that calls its function, with the variables it leaves after an abortable error, after a
rate limit, and after any other error. -/
theorem RetryPairFn.passes_called {self : RetryPairFn T Err} {step : AlternationStep}
    {l limited failed : Locals Err} {aborted : Err → Locals Err} (wait : Duration)
    (hown : l.aborted step = false) (haborted : ∀ err, l.Called (aborted err) step true)
    (hlimited : l.Called limited step false) (hfailed : l.Called failed step false) :
    self.Passes step l ⟨[.sleep wait, .call step],
      match self.function step (l.calls step) with
      | .ok res => .done (.returned (.ok res))
      | .error err =>
        if Abortable.abortable err then
          if l.aborted step.other then .done (abortedWith (some err)) else .goOn (aborted err)
        else if Abortable.rateLimit err then .goOn limited
        else .goOn failed⟩ := by
  cases hanswer : self.function step (l.calls step) with
  | ok res => exact .success wait res hown hanswer
  | error err =>
    by_cases habort : Abortable.abortable err = true
    · by_cases hother : l.aborted step.other = true
      · simp only [if_pos habort, if_pos hother]
        exact .secondAbort wait err hown hother hanswer habort
      · simp only [if_pos habort, if_neg hother]
        exact .firstAbort wait err _ hown (Bool.eq_false_of_not_eq_true hother) hanswer habort
          (haborted err)
    · have hfail := Bool.eq_false_of_not_eq_true habort
      by_cases hrate : Abortable.rateLimit err = true
      · simp only [if_neg habort, if_pos hrate]
        exact .failed wait err _ hown hanswer hfail hlimited
      · simp only [if_neg habort, if_neg hrate]
        exact .failed wait err _ hown hanswer hfail hfailed

theorem RetryPairFn.passes_firstArm (self : RetryPairFn T Err) (duration : Duration)
    (l : Locals Err) : self.Passes .first l (self.firstArm duration l) := by
  unfold RetryPairFn.firstArm
  by_cases hown : l.primaryFnAborted = true
  · rw [if_pos hown]
    exact RetryPairFn.passes_aborted hown
  · rw [if_neg hown]
    rw [Bool.not_eq_true] at hown
    exact RetryPairFn.passes_called _ hown (fun _ => ⟨rfl, rfl, rfl, rfl⟩) ⟨hown, rfl, rfl, rfl⟩
      ⟨hown, rfl, rfl, rfl⟩

theorem RetryPairFn.passes_secondArm (self : RetryPairFn T Err) (duration : Duration)
    (l : Locals Err) : self.Passes .second l (self.secondArm duration l) := by
  unfold RetryPairFn.secondArm
  by_cases hown : l.secondaryFnAborted = true
  · rw [if_pos hown]
    exact RetryPairFn.passes_aborted hown
  · rw [if_neg hown]
    rw [Bool.not_eq_true] at hown
    exact RetryPairFn.passes_called _ hown (fun _ => ⟨rfl, rfl, rfl, rfl⟩) ⟨hown, rfl, rfl, rfl⟩
      ⟨hown, rfl, rfl, rfl⟩

theorem RetryPairFn.passes_body (self : RetryPairFn T Err) (iteration : Iteration)
    (l : Locals Err) : self.Passes iteration.alterationStep l (self.body iteration l) := by
  unfold RetryPairFn.body
  cases iteration.alterationStep with
  | first => exact self.passes_firstArm iteration.duration l
  | second => exact self.passes_secondArm iteration.duration l

end Body

/-! ### Slots -/

section Slots

variable {self : RetryPairFn T Err} {step : AlternationStep} {i n : ℕ}

theorem forall_step {P : AlternationStep → Prop} (step : AlternationStep) :
    (∀ s, P s) ↔ P step ∧ P step.other := by
  constructor
  · intro h
    exact ⟨h step, h step.other⟩
  · rintro ⟨h, h'⟩ s
    cases step <;> cases s <;> assumption

theorem turn_succ (i : ℕ) : turn (i + 1) = (turn i).other := by
  unfold turn
  by_cases h : i % 2 = 0
  · have h' : ¬ (i + 1) % 2 = 0 := by omega
    rw [if_pos h, if_neg h']
    rfl
  · have h' : (i + 1) % 2 = 0 := by omega
    rw [if_neg h, if_pos h']
    rfl

/-- The number of slots of a function below `i`. -/
def turnsBefore : AlternationStep → ℕ → ℕ
  | .first, i => (i + 1) / 2
  | .second, i => i / 2

theorem turnsBefore_turn (i : ℕ) : turnsBefore (turn i) i = i / 2 := by
  unfold turn
  split
  · show (i + 1) / 2 = i / 2
    omega
  · rfl

theorem turnsBefore_succ (i : ℕ) : turnsBefore (turn i) (i + 1) = turnsBefore (turn i) i + 1 := by
  unfold turn
  split
  · show (i + 1 + 1) / 2 = (i + 1) / 2 + 1
    omega
  · show (i + 1) / 2 = i / 2 + 1
    omega

theorem turnsBefore_succ_other (i : ℕ) :
    turnsBefore (turn i).other (i + 1) = turnsBefore (turn i).other i := by
  unfold turn
  split
  · show (i + 1) / 2 = i / 2
    omega
  · show (i + 1 + 1) / 2 = (i + 1) / 2
    omega

theorem not_abortedBefore_zero : ¬ self.AbortedBefore step 0 := by
  rintro ⟨j, hj, -⟩
  omega

theorem abortedBefore_mono {j : ℕ} (hij : i ≤ j) (h : self.AbortedBefore step i) :
    self.AbortedBefore step j := by
  obtain ⟨k, hk, hstep, habort⟩ := h
  exact ⟨k, by omega, hstep, habort⟩

theorem bothAborted_mono {j : ℕ} (hij : i ≤ j) (h : self.BothAborted i) : self.BothAborted j :=
  ⟨abortedBefore_mono hij h.1, abortedBefore_mono hij h.2⟩

theorem bothAborted_iff (step : AlternationStep) : self.BothAborted i ↔
    self.AbortedBefore step i ∧ self.AbortedBefore step.other i := by
  cases step with
  | first => rfl
  | second => exact and_comm

/-- A slot that makes a call has not both functions aborted. -/
theorem RetryPairFn.Calls.not_bothAborted (h : self.Calls i) : ¬ self.BothAborted i :=
  fun hboth => h ((bothAborted_iff (turn i)).mp hboth).1

theorem aborts_iff {err : Err} (h : self.answer i = .error err) :
    Aborts (self.answer i) ↔ Abortable.abortable err = true := by
  constructor
  · rintro ⟨err', herr', habort⟩
    cases h.symm.trans herr'
    exact habort
  · exact fun habort => ⟨err, h, habort⟩

theorem not_succeeds_of_error {err : Err} (h : self.answer i = .error err) :
    ¬ self.Succeeds i := by
  rintro ⟨-, res, hres⟩
  cases h.symm.trans hres

theorem abortedBefore_succ_other :
    self.AbortedBefore (turn i).other (i + 1) ↔ self.AbortedBefore (turn i).other i := by
  constructor
  · rintro ⟨j, hj, hstep, habort⟩
    rcases Nat.lt_succ_iff_lt_or_eq.mp hj with h | rfl
    · exact ⟨j, h, hstep, habort⟩
    · cases hturn : turn j <;> rw [hturn] at hstep <;> cases hstep
  · exact abortedBefore_mono (Nat.le_succ i)

/-- A slot that does not abort its function leaves it as it was. -/
theorem abortedBefore_succ (h : ¬ Aborts (self.answer i)) :
    self.AbortedBefore (turn i) (i + 1) ↔ self.AbortedBefore (turn i) i := by
  constructor
  · rintro ⟨j, hj, hstep, habort⟩
    rcases Nat.lt_succ_iff_lt_or_eq.mp hj with hlt | rfl
    · exact ⟨j, hlt, hstep, habort⟩
    · exact absurd habort h
  · exact abortedBefore_mono (Nat.le_succ i)

/-- The flags and the counters at the start of the slot `i`. -/
structure RetryPairFn.Inv (retry : RetryPairFn T Err) (i : ℕ) (l : Locals Err) : Prop where
  aborted : ∀ step, l.aborted step = true ↔ retry.AbortedBefore step i
  calls : ∀ step, ¬ retry.AbortedBefore step i → l.calls step = turnsBefore step i

theorem inv_init : self.Inv 0 .init where
  aborted step := by
    cases step <;> simp [Locals.init, Locals.aborted, not_abortedBefore_zero]
  calls step _ := by
    cases step <;> rfl

/-- The slot after one that made no call. -/
theorem RetryPairFn.Inv.skip {l : Locals Err} (h : self.Inv i l) (hcall : ¬ self.Calls i) :
    self.Inv (i + 1) l := by
  have hown : self.AbortedBefore (turn i) i := Classical.not_not.mp hcall
  have hown' : self.AbortedBefore (turn i) (i + 1) := abortedBefore_mono (Nat.le_succ i) hown
  constructor
  · rw [forall_step (turn i)]
    refine ⟨iff_of_true ((h.aborted _).mpr hown) hown', ?_⟩
    rw [abortedBefore_succ_other]
    exact h.aborted _
  · rw [forall_step (turn i)]
    refine ⟨fun hno => absurd hown' hno, ?_⟩
    rw [abortedBefore_succ_other, turnsBefore_succ_other]
    exact h.calls _

/-- The slot after one that made a call, which did or did not abort its function. -/
theorem RetryPairFn.Inv.call {l l' : Locals Err} {aborted : Bool} (h : self.Inv i l)
    (hcall : self.Calls i) (hl : l.Called l' (turn i) aborted)
    (haborted : aborted = true ↔ Aborts (self.answer i)) : self.Inv (i + 1) l' := by
  constructor
  · rw [forall_step (turn i)]
    refine ⟨?_, ?_⟩
    · rw [hl.aborted, haborted]
      constructor
      · intro habort
        exact ⟨i, Nat.lt_succ_self i, rfl, habort⟩
      · intro hbefore
        by_contra hno
        exact hcall ((abortedBefore_succ hno).mp hbefore)
    · rw [hl.aborted_other, abortedBefore_succ_other]
      exact h.aborted _
  · rw [forall_step (turn i)]
    refine ⟨fun _ => ?_, ?_⟩
    · rw [hl.calls, h.calls _ hcall, turnsBefore_succ]
    · rw [hl.calls_other, abortedBefore_succ_other, turnsBefore_succ_other]
      exact h.calls _

/-- What a pass does in the slot `i`, in terms of the answers. -/
inductive RetryPairFn.SlotPass (self : RetryPairFn T Err) (i : ℕ) : Pass T Err → Prop
  | skipped (l : Locals Err) (call : ¬ self.Calls i) (both : ¬ self.BothAborted (i + 1))
      (inv : self.Inv (i + 1) l) : SlotPass self i ⟨[], .goOn l⟩
  | success (wait : Duration) (res : T) (call : self.Calls i) (answer : self.answer i = .ok res) :
    SlotPass self i ⟨[.sleep wait, .call (turn i)], .done (.returned (.ok res))⟩
  | secondAbort (wait : Duration) (err : Err) (call : self.Calls i)
      (answer : self.answer i = .error err) (abortable : Abortable.abortable err = true)
      (both : self.BothAborted (i + 1)) :
    SlotPass self i ⟨[.sleep wait, .call (turn i)], .done (.returned (.error (.aborted err)))⟩
  | goesOn (wait : Duration) (l : Locals Err) (call : self.Calls i) (success : ¬ self.Succeeds i)
      (both : ¬ self.BothAborted (i + 1)) (inv : self.Inv (i + 1) l) :
    SlotPass self i ⟨[.sleep wait, .call (turn i)], .goOn l⟩

theorem slotPass_of_passes {l : Locals Err} {pass : Pass T Err} (h : self.Inv i l)
    (hboth : ¬ self.BothAborted i) (hpass : self.Passes (turn i) l pass) :
    self.SlotPass i pass := by
  have hown : l.aborted (turn i) = false → self.Calls i := by
    intro hfalse hbefore
    rw [(h.aborted _).mpr hbefore] at hfalse
    cases hfalse
  have hanswer : self.Calls i → self.function (turn i) (l.calls (turn i)) = self.answer i := by
    intro hcall
    rw [h.calls _ hcall, turnsBefore_turn]
    rfl
  have hother : l.aborted (turn i).other = false → ¬ self.BothAborted (i + 1) := by
    intro hfalse hall
    have hbefore := abortedBefore_succ_other.mp ((bothAborted_iff (turn i)).mp hall).2
    rw [(h.aborted _).mpr hbefore] at hfalse
    cases hfalse
  cases hpass with
  | early own other =>
    -- the second abort has ended the run already
    exact absurd ((bothAborted_iff (turn i)).mpr ⟨(h.aborted _).mp own, (h.aborted _).mp other⟩)
      hboth
  | skipped own other =>
    have hcall : ¬ self.Calls i := fun hcall => hcall ((h.aborted _).mp own)
    exact .skipped l hcall (hother other) (h.skip hcall)
  | success wait res own answer =>
    exact .success wait res (hown own) ((hanswer (hown own)).symm.trans answer)
  | secondAbort wait err own other answer abortable =>
    rw [hanswer (hown own)] at answer
    refine .secondAbort wait err (hown own) answer abortable
      ((bothAborted_iff (turn i)).mpr ⟨?_, ?_⟩)
    · exact ⟨i, Nat.lt_succ_self i, rfl, err, answer, abortable⟩
    · exact abortedBefore_succ_other.mpr ((h.aborted _).mp other)
  | firstAbort wait err l' own other answer abortable called =>
    rw [hanswer (hown own)] at answer
    refine .goesOn wait l' (hown own) (not_succeeds_of_error answer) (hother other)
      (h.call (hown own) called ?_)
    exact iff_of_true rfl ((aborts_iff answer).mpr abortable)
  | failed wait err l' own answer abortable called =>
    rw [hanswer (hown own)] at answer
    have hno : ¬ Aborts (self.answer i) := by
      rw [aborts_iff answer, abortable]
      exact Bool.false_ne_true
    refine .goesOn wait l' (hown own) (not_succeeds_of_error answer) ?_
      (h.call (hown own) called ?_)
    · intro hall
      exact hown own ((abortedBefore_succ hno).mp ((bothAborted_iff (turn i)).mp hall).1)
    · exact iff_of_false Bool.false_ne_true hno

end Slots

/-! ### Runs -/

section Runs

variable {self : RetryPairFn T Err} {i m n : ℕ}

/-- What the slots from `i` below `m` come to. -/
inductive RetryPairFn.Verdict (self : RetryPairFn T Err) (i m : ℕ) :
    Except (RetryError Err) T → Prop
  | ok (k : ℕ) (res : T) (hi : i ≤ k) (hm : k < m) (call : self.Calls k)
      (answer : self.answer k = .ok res) (before : ∀ j, i ≤ j → j < k → ¬ self.Succeeds j) :
    Verdict self i m (.ok res)
  | aborted (k : ℕ) (err : Err) (hi : i ≤ k) (hm : k < m) (call : self.Calls k)
      (answer : self.answer k = .error err) (abortable : Abortable.abortable err = true)
      (both : self.BothAborted (k + 1)) (before : ∀ j, i ≤ j → j < k → ¬ self.Succeeds j) :
    Verdict self i m (.error (.aborted err))
  | maxAttempts (success : ∀ j, i ≤ j → j < m → ¬ self.Succeeds j)
      (both : ¬ self.BothAborted m) : Verdict self i m (.error .maxAttempts)

/-- A slot that was reached did what the answers say, and had not both functions aborted. -/
structure RetryPairFn.SlotOk (retry : RetryPairFn T Err) (i : ℕ) (slot : Slot Err) : Prop where
  turn : slot.iteration.alterationStep = turn i
  calls : (retry.Calls i → slot.acts.filterMap Act.called? = [Retry.turn i]) ∧
    (¬ retry.Calls i → slot.acts.filterMap Act.called? = [])
  early : ¬ (slot.locals.primaryFnAborted = true ∧ slot.locals.secondaryFnAborted = true)

/-- The rest of a run, over the slots from `i` below `m`. -/
structure RetryPairFn.Tail (retry : RetryPairFn T Err) (i m : ℕ) (run : RetryPairFn.Run T Err) :
    Prop where
  verdict : ∃ result, run.outcome = .returned result ∧ retry.Verdict i m result
  reached : ∀ k, k < run.slots.length ↔
    i + k < m ∧ (∀ j, i ≤ j → j < i + k → ¬ retry.Succeeds j) ∧ ¬ retry.BothAborted (i + k)
  slot : ∀ (k : ℕ) (slot : Slot Err), run.slots[k]? = some slot → retry.SlotOk (i + k) slot

/-- A slot without a success can be added at the front. -/
theorem forall_not_succeeds_iff {k : ℕ} (h : ¬ self.Succeeds i) :
    (∀ j, i + 1 ≤ j → j < k → ¬ self.Succeeds j) ↔ ∀ j, i ≤ j → j < k → ¬ self.Succeeds j := by
  constructor
  · intro hno j hi hj
    rcases Nat.eq_or_lt_of_le hi with rfl | hlt
    · exact h
    · exact hno j hlt hj
  · intro hno j hi hj
    exact hno j (by omega) hj

theorem RetryPairFn.Verdict.earlier {result : Except (RetryError Err) T}
    (h : self.Verdict (i + 1) m result) (hno : ¬ self.Succeeds i) : self.Verdict i m result := by
  cases h with
  | ok k res hi hk call answer before =>
    exact .ok k res (by omega) hk call answer ((forall_not_succeeds_iff hno).mp before)
  | aborted k err hi hk call answer abortable both before =>
    exact .aborted k err (by omega) hk call answer abortable both
      ((forall_not_succeeds_iff hno).mp before)
  | maxAttempts success both => exact .maxAttempts ((forall_not_succeeds_iff hno).mp success) both

theorem tail_nil (hboth : ¬ self.BothAborted i) :
    self.Tail i i ⟨[], .returned (.error .maxAttempts)⟩ where
  verdict := ⟨_, rfl, .maxAttempts (fun j hi hj => by omega) hboth⟩
  reached k := by simp
  slot k slot h := by simp at h

/-- The slot ends the run. -/
theorem tail_done {slot : Slot Err} {result : Except (RetryError Err) T} (hm : i < m)
    (hslot : self.SlotOk i slot) (hboth : ¬ self.BothAborted i)
    (hend : self.Succeeds i ∨ self.BothAborted (i + 1)) (hresult : self.Verdict i m result) :
    self.Tail i m ⟨[slot], .returned result⟩ where
  verdict := ⟨result, rfl, hresult⟩
  reached k := by
    constructor
    · intro hk
      have hk0 : k = 0 := by simpa using hk
      subst hk0
      exact ⟨hm, fun j hi hj => by omega, hboth⟩
    · rintro ⟨-, hsuccess, hno⟩
      by_contra hk
      have hk1 : k ≠ 0 := by simpa using hk
      rcases hend with h | h
      · exact hsuccess i (Nat.le_refl i) (by omega) h
      · exact hno (bothAborted_mono (by omega) h)
  slot k slot' h := by
    cases k with
    | zero =>
      cases h
      exact hslot
    | succ k => cases h

/-- The run goes on to the next slot. -/
theorem tail_cons {slot : Slot Err} {run : RetryPairFn.Run T Err} (hm : i < m)
    (hslot : self.SlotOk i slot) (hboth : ¬ self.BothAborted i) (hsuccess : ¬ self.Succeeds i)
    (h : self.Tail (i + 1) m run) : self.Tail i m ⟨slot :: run.slots, run.outcome⟩ where
  verdict := by
    obtain ⟨result, hout, hverdict⟩ := h.verdict
    exact ⟨result, hout, hverdict.earlier hsuccess⟩
  reached k := by
    cases k with
    | zero =>
      have hz : 0 < (slot :: run.slots).length := Nat.succ_pos _
      exact iff_of_true hz ⟨hm, fun j hi hj => by omega, hboth⟩
    | succ k =>
      have hshift : i + 1 + k = i + (k + 1) := by omega
      have hk := h.reached k
      rw [hshift] at hk
      refine (Nat.succ_lt_succ_iff.trans hk).trans
        (and_congr_right fun _ => and_congr_left fun _ => ?_)
      exact forall_not_succeeds_iff hsuccess
  slot k slot' hslot' := by
    cases k with
    | zero =>
      cases hslot'
      exact hslot
    | succ k =>
      have hshift : i + 1 + k = i + (k + 1) := by omega
      rw [← hshift]
      exact h.slot k slot' hslot'

/-- The step lemma: one pass, then the rest of the run. -/
theorem tail_loop (iterations : List Iteration) {l : Locals Err}
    (hturns : ∀ (k : ℕ) (it : Iteration), iterations[k]? = some it →
      it.alterationStep = turn (i + k))
    (hinv : self.Inv i l) (hboth : ¬ self.BothAborted i) :
    self.Tail i (i + iterations.length) (self.loop iterations l) := by
  induction iterations generalizing i l with
  | nil => exact tail_nil hboth
  | cons it rest ih =>
    have hturn : it.alterationStep = turn i := hturns 0 it rfl
    have hm : i < i + (it :: rest).length := Nat.lt_add_of_pos_right (Nat.succ_pos _)
    have hearly : ¬ (l.primaryFnAborted = true ∧ l.secondaryFnAborted = true) := by
      rintro ⟨hprimary, hsecondary⟩
      exact hboth ⟨(hinv.aborted .first).mp hprimary, (hinv.aborted .second).mp hsecondary⟩
    have hbody := self.passes_body it l
    rw [hturn] at hbody
    have hpass := slotPass_of_passes hinv hboth hbody
    have hrest : ∀ l', self.Inv (i + 1) l' → ¬ self.BothAborted (i + 1) →
        self.Tail (i + 1) (i + (it :: rest).length) (self.loop rest l') := by
      intro l' hinv' hboth'
      have hlen : i + 1 + rest.length = i + (it :: rest).length := by
        rw [List.length_cons]
        omega
      rw [← hlen]
      refine ih (fun k it' hk => ?_) hinv' hboth'
      have hshift : i + 1 + k = i + (k + 1) := by omega
      rw [hshift]
      exact hturns (k + 1) it' hk
    unfold RetryPairFn.loop
    generalize self.body it l = pass at hpass
    cases hpass with
    | skipped l' call both inv =>
      refine tail_cons hm ⟨hturn, ⟨fun h => absurd h call, fun _ => rfl⟩, hearly⟩ hboth ?_
        (hrest l' inv both)
      exact fun h => call h.1
    | success wait res call answer =>
      exact tail_done hm ⟨hturn, ⟨fun _ => rfl, fun h => absurd call h⟩, hearly⟩ hboth
        (Or.inl ⟨call, res, answer⟩)
        (.ok i res (Nat.le_refl i) hm call answer fun j hi hj => by omega)
    | secondAbort wait err call answer abortable both =>
      exact tail_done hm ⟨hturn, ⟨fun _ => rfl, fun h => absurd call h⟩, hearly⟩ hboth
        (Or.inr both)
        (.aborted i err (Nat.le_refl i) hm call answer abortable both fun j hi hj => by omega)
    | goesOn wait l' call success both inv =>
      exact tail_cons hm ⟨hturn, ⟨fun _ => rfl, fun h => absurd call h⟩, hearly⟩ hboth success
        (hrest l' inv both)

/-- The answers leave one verdict. -/
theorem verdict_unique {result result' : Except (RetryError Err) T}
    (h : self.Verdict 0 m result) (h' : self.Verdict 0 m result') : result = result' := by
  cases h with
  | ok k res hi hm call answer before =>
    cases h' with
    | ok k' res' _ hm' call' answer' before' =>
      rcases lt_trichotomy k k' with hlt | rfl | hlt
      · exact absurd ⟨call, res, answer⟩ (before' k hi hlt)
      · exact congrArg Except.ok (Except.ok.inj (answer.symm.trans answer'))
      · exact absurd ⟨call', res', answer'⟩ (before k' (Nat.zero_le k') hlt)
    | aborted k' err' _ hm' call' answer' abortable' both' before' =>
      rcases lt_trichotomy k k' with hlt | rfl | hlt
      · exact absurd ⟨call, res, answer⟩ (before' k hi hlt)
      · cases answer.symm.trans answer'
      · exact absurd (bothAborted_mono hlt both') call.not_bothAborted
    | maxAttempts success both => exact absurd ⟨call, res, answer⟩ (success k hi hm)
  | aborted k err hi hm call answer abortable both before =>
    cases h' with
    | ok k' res' _ hm' call' answer' before' =>
      rcases lt_trichotomy k' k with hlt | rfl | hlt
      · exact absurd ⟨call', res', answer'⟩ (before k' (Nat.zero_le k') hlt)
      · cases answer.symm.trans answer'
      · exact absurd (bothAborted_mono hlt both) call'.not_bothAborted
    | aborted k' err' _ hm' call' answer' abortable' both' before' =>
      rcases lt_trichotomy k k' with hlt | rfl | hlt
      · exact absurd (bothAborted_mono hlt both) call'.not_bothAborted
      · cases answer.symm.trans answer'
        rfl
      · exact absurd (bothAborted_mono hlt both') call.not_bothAborted
    | maxAttempts success' both' => exact absurd (bothAborted_mono hm both) both'
  | maxAttempts success both =>
    cases h' with
    | ok k' res' hi' hm' call' answer' before' =>
      exact absurd ⟨call', res', answer'⟩ (success k' hi' hm')
    | aborted k' err' hi' hm' call' answer' abortable' both' before' =>
      exact absurd (bothAborted_mono hm' both') both
    | maxAttempts => rfl

end Runs

/-! ### The iterations -/

theorem length_take (jitter : ℕ → UInt64 → UInt64) (it : BackoffPairIterator) (n : ℕ) :
    (it.take jitter n).length = n := by
  induction n generalizing jitter it with
  | zero => rfl
  | succ n ih => exact congrArg (· + 1) (ih _ _)

/-- The items of the iterator belong to the two paths in turn. -/
theorem alterationStep_take (jitter : ℕ → UInt64 → UInt64) (it : BackoffPairIterator) (n i k : ℕ)
    (hpath : it.backoffPath = turn i) (iteration : Iteration)
    (h : (it.take jitter n)[k]? = some iteration) : iteration.alterationStep = turn (i + k) := by
  induction n generalizing jitter it i k with
  | zero => cases h
  | succ n ih =>
    have hnext : (it.next (jitter 0)).1.alterationStep = turn i ∧
        (it.next (jitter 0)).2.backoffPath = turn (i + 1) := by
      rw [turn_succ, ← hpath]
      unfold BackoffPairIterator.next
      cases it.backoffPath <;> exact ⟨rfl, rfl⟩
    cases k with
    | zero =>
      cases h
      exact hnext.1
    | succ k =>
      have hshift : i + (k + 1) = i + 1 + k := by omega
      rw [hshift]
      exact ih _ _ (i + 1) k hnext.2 h

/-- The tail of a whole run. -/
theorem tail_retry (self : RetryPairFn T Err) (hpath : self.backoff.backoffPath = .first)
    (jitter : ℕ → UInt64 → UInt64) : self.Tail 0 self.maxAttempts (self.retry jitter) := by
  have hboth : ¬ self.BothAborted 0 := fun h => not_abortedBefore_zero h.1
  have htail := tail_loop (self.backoff.take jitter self.maxAttempts)
    (fun k it hk => alterationStep_take jitter self.backoff self.maxAttempts 0 k hpath it hk)
    inv_init hboth
  rwa [length_take, Nat.zero_add] at htail

theorem outcome_retry_iff (self : RetryPairFn T Err) (hpath : self.backoff.backoffPath = .first)
    (jitter : ℕ → UInt64 → UInt64) (result : Except (RetryError Err) T) :
    (self.retry jitter).outcome = .returned result ↔ self.Verdict 0 self.maxAttempts result := by
  obtain ⟨result', hout, hverdict⟩ := (tail_retry self hpath jitter).verdict
  rw [hout]
  constructor
  · intro h
    cases h
    exact hverdict
  · intro h
    rw [verdict_unique hverdict h]

/-! ### The run is the reference -/

theorem reference_retry (self : RetryPairFn T Err) (hpath : self.backoff.backoffPath = .first)
    (jitter : ℕ → UInt64 → UInt64) : self.Reference (self.retry jitter) := by
  have htail := tail_retry self hpath jitter
  have hout := outcome_retry_iff self hpath jitter
  constructor
  case ok =>
    intro res
    rw [hout]
    constructor
    · rintro ⟨k, _, _, hm, call, answer, before⟩
      exact ⟨k, hm, call, answer, fun j hj => before j (Nat.zero_le j) hj, call.not_bothAborted⟩
    · rintro ⟨k, hm, call, answer, before, -⟩
      exact .ok k res (Nat.zero_le k) hm call answer fun j _ hj => before j hj
  case aborted =>
    intro err
    rw [hout]
    constructor
    · rintro (_ | ⟨k, _, _, hm, call, answer, abortable, both, before⟩)
      exact ⟨k, hm, call, answer, abortable, both, fun j hj => before j (Nat.zero_le j) hj⟩
    · rintro ⟨k, hm, call, answer, abortable, both, before⟩
      exact .aborted k err (Nat.zero_le k) hm call answer abortable both fun j _ hj => before j hj
  case maxAttempts =>
    rw [hout]
    constructor
    · rintro (_ | _ | ⟨success, both⟩)
      exact ⟨fun i hi => success i (Nat.zero_le i) hi, both⟩
    · rintro ⟨success, both⟩
      exact .maxAttempts (fun j _ hj => success j hj) both
  case expects =>
    obtain ⟨result, hresult, -⟩ := htail.verdict
    rw [hresult]
    intro h
    cases h
  case reached =>
    intro i
    have hi := htail.reached i
    rw [Nat.zero_add] at hi
    refine hi.trans (and_congr_right fun _ => and_congr_left fun _ => ?_)
    exact ⟨fun h j hj => h j (Nat.zero_le j) hj, fun h j _ hj => h j hj⟩
  all_goals
    intro i slot hslot
    have hok := htail.slot i slot hslot
    rw [Nat.zero_add] at hok
  case turns => exact hok.turn
  case calls => exact hok.calls
  case early => exact hok.early

/-- `RetryPairFn.retry` is its reference, for every pair of functions and every jitter. -/
theorem retry_pair_reference (initialDelay : Duration) (factor : NonZeroU64) (maxDelay : Duration)
    (firstFunction secondFunction : ℕ → Except Err T) (maxAttempts : ℕ)
    (jitter : ℕ → UInt64 → UInt64) :
    let self : RetryPairFn T Err :=
      { RetryPairFn.new (.new initialDelay factor maxDelay) firstFunction secondFunction with
        maxAttempts := maxAttempts }
    self.Reference (self.retry jitter) :=
  reference_retry _ rfl jitter

end Retry
end RelayerCore
