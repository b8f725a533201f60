import RelayerCore.Lib.Machine
import RelayerCore.Lib.Saturating

/-!
# The two binaries (`amplifier-subscriber/src/main.rs`, `amplifier-ingester/src/main.rs`)

Each spawns a worker loop and a health check server and waits for both.  The loop gives up after
`max_errors` failures in a row; the server stops only when the token is cancelled.  Giving up does
not cancel the token, so the process ends with its worker exactly if the worker gives up after the
cancellation.
-/

namespace RelayerCore
namespace Application

open Machine Saturating

/-! ### The process -/

/-- The worker task: in its loop, out of it by `break`, or out of it by the cancellation. -/
inductive Worker
  | looping
  | gaveUp
  | stopped
  deriving DecidableEq

/-- The task of `run_health_check_server`. -/
inductive HealthServer
  | serving
  | stopped
  deriving DecidableEq

/-- The main task, at `try_join!` until both tasks have ended or one has panicked. -/
inductive Process
  | running
  | ended
  | panicked
  deriving DecidableEq

/-- `outcomes` are the results of the calls so far, the latest first: `true` for `Ok`. -/
structure State where
  worker : Worker
  errorCount : ℕ
  outcomes : List Bool
  health : HealthServer
  cancelled : Bool
  process : Process

def init : State :=
  { worker := .looping
    errorCount := 0
    outcomes := []
    health := .serving
    cancelled := false
    process := .running }

/-- The labels: the cancellation from outside, the end of a call (by a panic too), the worker
noticing the cancellation, the end of the health server (gracefully or by an error), and the
join. -/
inductive Action
  | cancel
  | work (ok : Bool)
  | workPanics
  | observeCancel
  | healthStops
  | healthFails
  | join
  deriving DecidableEq

/-- `u32::MAX`. -/
abbrev u32Max : ℕ := 2 ^ 32 - 1

/-- One round of the loop, once the call has returned. -/
def State.afterWork (s : State) (maxErrors : UInt32) (ok : Bool) : State :=
  if ok then { s with errorCount := 0, outcomes := true :: s.outcomes }
  else
    let errorCount := sat u32Max (s.errorCount + 1)
    { s with
      errorCount := errorCount
      outcomes := false :: s.outcomes
      worker := if errorCount ≥ maxErrors.toNat then .gaveUp else .looping }

/-- The steps of the worker task, the health server and the main task. -/
def runWorker (maxErrors : UInt32) (s : State) (a : Action) : Option State :=
  match s.process with
  | .running =>
    match a with
    | .cancel => some { s with cancelled := true }
    | .work ok => if s.worker = .looping then some (s.afterWork maxErrors ok) else none
    | .workPanics =>
      -- the join of the worker fails, and so does the `expect` on `try_join!`
      if s.worker = .looping then some { s with process := .panicked } else none
    | .observeCancel =>
      -- `run_until_cancelled` drops the loop
      if s.worker = .looping ∧ s.cancelled = true then some { s with worker := .stopped } else none
    | .healthStops =>
      if s.health = .serving ∧ s.cancelled = true then some { s with health := .stopped } else none
    | .healthFails =>
      if s.health = .serving then some { s with process := .panicked } else none
    | .join =>
      if s.worker ≠ .looping ∧ s.health = .stopped then some { s with process := .ended } else none
  | _ => none

structure Config where
  maxErrors : UInt32

def runSubscriber (config : Config) : State → Action → Option State := runWorker config.maxErrors

def runIngester (config : Config) : State → Action → Option State := runWorker config.maxErrors

inductive Binary
  | amplifierSubscriber
  | amplifierIngester
  deriving DecidableEq

def Binary.run : Binary → Config → State → Action → Option State
  | .amplifierSubscriber => runSubscriber
  | .amplifierIngester => runIngester

theorem Binary.run_eq (binary : Binary) (config : Config) :
    binary.run config = runWorker config.maxErrors := by
  cases binary <;> rfl

/-! ### Termination -/

/-- The number of failures since the last success. -/
def failures (outcomes : List Bool) : ℕ := (outcomes.takeWhile (!·)).length

@[simp] theorem failures_nil : failures [] = 0 := rfl

@[simp] theorem failures_ok (outcomes : List Bool) : failures (true :: outcomes) = 0 := rfl

@[simp] theorem failures_err (outcomes : List Bool) :
    failures (false :: outcomes) = failures outcomes + 1 := rfl

/-- The failures in a row that make the worker give up. -/
def Config.threshold (config : Config) : ℕ := max 1 config.maxErrors.toNat

/-- The loop exits at the threshold or at the cancellation, and the process ends with it. -/
structure Terminates (config : Config) (s : State) : Prop where
  gaveUp : s.worker = .gaveUp ↔ config.threshold ≤ failures s.outcomes
  stopped : s.worker = .stopped → s.cancelled = true
  stops : s.worker = .looping → s.process = .running → s.cancelled = true →
    runWorker config.maxErrors s .observeCancel = some { s with worker := .stopped }
  cancelled : s.worker ≠ .looping → s.cancelled = true
  /-- The server and the main task finish without anything from outside. -/
  ends : s.worker ≠ .looping → s.process = .running →
    ∃ as s', (∀ a ∈ as, a = .healthStops ∨ a = .join) ∧
      exec (runWorker config.maxErrors) s as = some s' ∧ s'.process = .ended

/-- A call that makes the worker give up returns after the cancellation. -/
def GivesUpCancelled (config : Config) (s : State) : Action → Prop
  | .work false => s.cancelled = true ∨ failures s.outcomes + 1 < config.threshold
  | _ => True

instance (config : Config) (s : State) (a : Action) : Decidable (GivesUpCancelled config s a) := by
  unfold GivesUpCancelled
  split <;> infer_instance

variable {config : Config} {s s' : State} {a : Action}

/-! ### The loop -/

/-- What the variables of the loop say about the calls. -/
structure Inv (config : Config) (s : State) : Prop where
  count : s.worker = .looping → s.errorCount = failures s.outcomes
  below : s.worker ≠ .gaveUp → failures s.outcomes < config.threshold
  above : s.worker = .gaveUp → config.threshold ≤ failures s.outcomes
  stopped : s.worker = .stopped → s.cancelled = true

theorem inv_init : Inv config init where
  count _ := rfl
  below _ := lt_of_lt_of_le Nat.zero_lt_one (le_max_left 1 _)
  above h := by cases h
  stopped h := by cases h

/-- Below the threshold the counter does not saturate, and `>=` compares with the threshold. -/
theorem errorCount_afterWork (h : Inv config s) (hw : s.worker = .looping) :
    sat u32Max (s.errorCount + 1) = failures s.outcomes + 1 ∧
      (sat u32Max (s.errorCount + 1) ≥ config.maxErrors.toNat ↔
        config.threshold ≤ failures s.outcomes + 1) := by
  have hlt : failures s.outcomes < max 1 config.maxErrors.toNat := h.below (by simp [hw])
  have hmax : config.maxErrors.toNat < 2 ^ 32 := config.maxErrors.toNat_lt
  have hle : failures s.outcomes + 1 ≤ 2 ^ 32 - 1 := by omega
  rw [h.count hw, sat_of_le hle]
  refine ⟨rfl, ?_⟩
  show config.maxErrors.toNat ≤ failures s.outcomes + 1 ↔
    max 1 config.maxErrors.toNat ≤ failures s.outcomes + 1
  omega

theorem inv_afterWork (h : Inv config s) (hw : s.worker = .looping) (ok : Bool) :
    Inv config (s.afterWork config.maxErrors ok) := by
  cases ok with
  | true =>
    refine ⟨fun _ => rfl, fun _ => ?_, fun hg => ?_, fun hs => ?_⟩
    · exact lt_of_lt_of_le Nat.zero_lt_one (le_max_left 1 _)
    · exact absurd (hw.symm.trans hg) (by decide)
    · exact absurd (hw.symm.trans hs) (by decide)
  | false =>
    obtain ⟨hcount, hiff⟩ := errorCount_afterWork h hw
    by_cases hge : sat u32Max (s.errorCount + 1) ≥ config.maxErrors.toNat
    · have hs' : (s.afterWork config.maxErrors false).worker = .gaveUp := if_pos hge
      refine ⟨fun hl => ?_, fun hne => absurd hs' hne, fun _ => hiff.mp hge, fun hs => ?_⟩
      · rw [hs'] at hl
        cases hl
      · rw [hs'] at hs
        cases hs
    · have hs' : (s.afterWork config.maxErrors false).worker = .looping := if_neg hge
      refine ⟨fun _ => hcount, fun _ => Nat.lt_of_not_le (mt hiff.mpr hge), fun hg => ?_,
        fun hs => ?_⟩
      · rw [hs'] at hg
        cases hg
      · rw [hs'] at hs
        cases hs

/-- A step is a call that returns, the worker dropped by the cancellation, or neither of the two. -/
theorem step_cases (hs : runWorker config.maxErrors s a = some s') :
    (∃ ok, a = .work ok ∧ s.worker = .looping ∧ s' = s.afterWork config.maxErrors ok) ∨
    (s.cancelled = true ∧ s.worker = .looping ∧ s' = { s with worker := .stopped }) ∨
    (s'.worker = s.worker ∧ s'.errorCount = s.errorCount ∧ s'.outcomes = s.outcomes ∧
      (s.cancelled = true → s'.cancelled = true) ∧ ∀ ok, a ≠ .work ok) := by
  unfold runWorker at hs
  split at hs
  · cases a with
    | cancel =>
      cases hs
      exact Or.inr (Or.inr ⟨rfl, rfl, rfl, fun _ => rfl, by simp⟩)
    | work ok =>
      obtain ⟨hw, hs⟩ := Option.ite_none_right_eq_some.1 hs
      cases hs
      exact Or.inl ⟨ok, rfl, hw, rfl⟩
    | observeCancel =>
      obtain ⟨⟨hw, hcan⟩, hs⟩ := Option.ite_none_right_eq_some.1 hs
      cases hs
      exact Or.inr (Or.inl ⟨hcan, hw, rfl⟩)
    | workPanics | healthStops | healthFails | join =>
      obtain ⟨-, hs⟩ := Option.ite_none_right_eq_some.1 hs
      cases hs
      exact Or.inr (Or.inr ⟨rfl, rfl, rfl, id, by simp⟩)
  · cases hs

theorem inv_step (h : Inv config s) (hs : runWorker config.maxErrors s a = some s') :
    Inv config s' := by
  rcases step_cases hs with ⟨ok, -, hw, rfl⟩ | ⟨hcan, hw, rfl⟩ | ⟨hw, hcount, hout, hcan, -⟩
  · exact inv_afterWork h hw ok
  · have hne : Worker.stopped ≠ .looping ∧ Worker.stopped ≠ .gaveUp := by decide
    exact ⟨fun hl => absurd hl hne.1, fun _ => h.below (by simp [hw]),
      fun hg => absurd hg hne.2, fun _ => hcan⟩
  · refine ⟨?_, ?_, ?_, ?_⟩
    · rw [hw, hcount, hout]
      exact h.count
    · rw [hw, hout]
      exact h.below
    · rw [hw, hout]
      exact h.above
    · rw [hw]
      exact fun hs => hcan (h.stopped hs)

theorem inv_of_reach (h : Reach (ofFn (runWorker config.maxErrors)) init s) : Inv config s :=
  h.invariant inv_init fun _ _ _ => inv_step

/-! ### The end of the process -/

/-- Once the token is cancelled and the loop has ended, the rest ends by itself. -/
theorem ends_of_cancelled (hw : s.worker ≠ .looping) (hp : s.process = .running)
    (hcan : s.cancelled = true) :
    ∃ as s', (∀ a ∈ as, a = .healthStops ∨ a = .join) ∧
      exec (runWorker config.maxErrors) s as = some s' ∧ s'.process = .ended := by
  cases hh : s.health with
  | serving =>
    refine ⟨[.healthStops, .join], { s with health := .stopped, process := .ended }, ?_, ?_, rfl⟩
    · simp
    · simp [exec, runWorker, hp, hh, hcan, hw]
  | stopped =>
    refine ⟨[.join], { s with process := .ended }, ?_, ?_, rfl⟩
    · simp
    · simp [exec, runWorker, hp, hh, hw]

theorem terminates_of_inv (h : Inv config s) (hcan : s.worker ≠ .looping → s.cancelled = true) :
    Terminates config s where
  gaveUp := by
    constructor
    · exact h.above
    · intro hle
      by_contra hne
      exact absurd (h.below hne) (Nat.not_lt.mpr hle)
  stopped := h.stopped
  stops hw hp hc := by simp [runWorker, hp, hw, hc]
  cancelled := hcan
  ends hw hp := ends_of_cancelled hw hp (hcan hw)

/-- While the worker gives up only after the cancellation, the token is cancelled when it is out of
its loop. -/
theorem cancelled_of_reach
    (h : Reach (when (ofFn (runWorker config.maxErrors)) (GivesUpCancelled config)) init s) :
    s.worker ≠ .looping → s.cancelled = true := by
  induction h with
  | refl => exact fun hw => absurd rfl hw
  | @tail s s' a hr hs ih =>
    obtain ⟨hok, hs⟩ := hs
    have hinv := inv_of_reach hr.of_when
    rcases step_cases hs with ⟨ok, rfl, hw, rfl⟩ | ⟨hcan, hw, rfl⟩ | ⟨hw, -, -, hcan, -⟩
    · intro hout
      cases ok with
      | true => exact absurd hw hout
      | false =>
        rcases hok with hcan | hlt
        · exact hcan
        · have hge : ¬ sat u32Max (s.errorCount + 1) ≥ config.maxErrors.toNat :=
            mt (errorCount_afterWork hinv hw).2.mp (Nat.not_le.mpr hlt)
          exact absurd (if_neg hge) hout
    · exact fun _ => hcan
    · rw [hw]
      exact fun hout => hcan (ih hout)

/-- A call that makes the worker give up before the cancellation leaves the token as it is. -/
theorem not_terminates_of_gaveUp (h : Inv config s) (hok : ¬ GivesUpCancelled config s a)
    (hs : runWorker config.maxErrors s a = some s') : ¬ Terminates config s' := by
  rcases step_cases hs with ⟨ok, rfl, hw, rfl⟩ | ⟨hcan, -, -⟩ | ⟨-, -, -, -, hne⟩
  · cases ok with
    | true => exact absurd trivial hok
    | false =>
      obtain ⟨hcan, hge⟩ := not_or.mp hok
      have hgave : (s.afterWork config.maxErrors false).worker = .gaveUp :=
        if_pos ((errorCount_afterWork h hw).2.mpr (Nat.le_of_not_lt hge))
      intro ht
      exact hcan (ht.cancelled (by simp [hgave]))
  · cases a with
    | work ok =>
      cases ok with
      | true => exact absurd trivial hok
      | false => exact absurd (Or.inl hcan) hok
    | _ => exact absurd trivial hok
  · cases a with
    | work ok => exact absurd rfl (hne ok)
    | _ => exact absurd trivial hok

/-- **The process ends with its worker exactly when the worker gives up after the cancellation.**
A run keeps to the promised termination in all its states, if and only if no call before the
cancellation is the failure that makes the worker give up. -/
theorem process_ends_with_worker_iff (binary : Binary) {tr : List (State × Action)}
    (h : Run (ofFn (binary.run config)) init tr s) :
    (∀ t ∈ visited tr s, Terminates config t) ↔ ∀ p ∈ tr, GivesUpCancelled config p.1 p.2 := by
  rw [binary.run_eq] at h
  refine h.forall_visited_iff ?_ ?_ ?_
  · exact terminates_of_inv inv_init fun hw => absurd rfl hw
  · exact fun t ht => terminates_of_inv (inv_of_reach ht.of_when) (cancelled_of_reach ht)
  · exact fun t a t' ht hok hs => not_terminates_of_gaveUp (inv_of_reach ht.of_when) hok hs

/-- The theorem on a run that is cancelled while the worker works. -/
theorem process_ends_cancelled :
    ∃ (tr : List (State × Action)) (s : State),
      tr.map Prod.snd = [.join, .healthStops, .observeCancel, .cancel, .work false] ∧
        ∀ t ∈ visited tr s, Terminates ⟨20⟩ t := by
  obtain ⟨tr, s, hr, hok, htr⟩ := exists_run_of_exec (Binary.run .amplifierIngester ⟨20⟩)
    (GivesUpCancelled ⟨20⟩) init [.work false, .cancel, .observeCancel, .healthStops, .join]
    (by decide)
  exact ⟨tr, s, htr, (process_ends_with_worker_iff .amplifierIngester hr).2 hok⟩

/-- With the default of twenty errors the process outlives its worker: the loop is over, nobody has
cancelled the token, and the health server serves on. -/
theorem process_outlives_worker :
    ∃ s, Reach (ofFn (Binary.run .amplifierSubscriber ⟨20⟩)) init s ∧ s.worker = .gaveUp ∧
      s.health = .serving ∧ s.process = .running ∧ ¬ Terminates ⟨20⟩ s := by
  obtain ⟨s, hs, hp⟩ := exists_reach_of_exec (Binary.run .amplifierSubscriber ⟨20⟩) init
    (List.replicate 20 (.work false))
    (fun s => s.worker == .gaveUp && s.health == .serving && s.process == .running && !s.cancelled)
    (by decide)
  simp only [Bool.and_eq_true, beq_iff_eq, Bool.not_eq_true'] at hp
  obtain ⟨⟨⟨hw, hh⟩, hpr⟩, hcan⟩ := hp
  refine ⟨s, hs, hw, hh, hpr, fun ht => ?_⟩
  have := ht.cancelled (by simp [hw])
  rw [hcan] at this
  cases this

end Application
end RelayerCore
