import RelayerCore.Application.Worker
import RelayerCore.Lib.Fair

/-!
# How the two binaries end (`bin-util/src/lib.rs`, `amplifier-subscriber/src/main.rs`,
`amplifier-ingester/src/main.rs`)

The handler of `register_cancel` cancels the token at the first Ctrl-C and exits the process at the
second one; nothing else cancels the token.

* `Orderly`: a process that returns from `main` was told to, and one that exits was told twice;
* `binary_ends_once_interrupted`: a process that is told to end does.
-/

namespace RelayerCore
namespace Application
namespace CtrlC

open Machine

/-- What the handler of `register_cancel` does. -/
inductive Handled
  | cancel
  | exit
  deriving DecidableEq

def ctrlcHandler (isCancelled : Bool) : Handled := if isCancelled then .exit else .cancel

/-- `signals` counts the calls of the handler; `exited` is `std::process::exit(1)`. -/
structure State where
  app : Application.State
  signals : ℕ
  exited : Bool

def init : State :=
  { app := Application.init
    signals := 0
    exited := false }

inductive Action
  | ctrlc
  | app (a : Application.Action)
  deriving DecidableEq

/-- The process has not ended in any way. -/
def State.Alive (s : State) : Prop := s.exited = false ∧ s.app.process = .running

instance (s : State) : Decidable s.Alive := inferInstanceAs (Decidable (_ ∧ _))

def step (binary : Binary) (config : Config) (s : State) (a : Action) : Option State :=
  if s.Alive then
    match a with
    | .ctrlc =>
      match ctrlcHandler s.app.cancelled with
      | .exit => some { s with signals := s.signals + 1, exited := true }
      | .cancel =>
        (binary.run config s.app .cancel).map fun app => { s with app, signals := s.signals + 1 }
    | .app .cancel => none
    | .app a => (binary.run config s.app a).map fun app => { s with app }
  else none

/-! ### What a step can do -/

variable {binary : Binary} {config : Config} {s s' : State} {a : Action}

/-- The steps of a binary that the cancellation does not take part in. -/
inductive Moves (config : Config) (s : State) : Action → State → Prop
  | exits (hcan : s.app.cancelled = true) :
      Moves config s .ctrlc { s with signals := s.signals + 1, exited := true }
  | cancels (hcan : s.app.cancelled = false) :
      Moves config s .ctrlc
        { s with app := { s.app with cancelled := true }, signals := s.signals + 1 }
  | app (a : Application.Action) (hother : a ≠ .cancel) (app : Application.State)
      (happ : runWorker config.maxErrors s.app a = some app) :
      Moves config s (.app a) { s with app }

theorem runWorker_cancel (hp : s.app.process = .running) :
    binary.run config s.app .cancel = some { s.app with cancelled := true } := by
  simp [Binary.run_eq, runWorker, hp]

theorem moves_of_step (hs : step binary config s a = some s') :
    s.Alive ∧ Moves config s a s' := by
  obtain ⟨halive, hs⟩ := Option.ite_none_right_eq_some.1 hs
  refine ⟨halive, ?_⟩
  cases a with
  | ctrlc =>
    cases hcan : s.app.cancelled with
    | true =>
      simp only [hcan, ctrlcHandler, if_true, Option.some_inj] at hs
      exact hs ▸ .exits hcan
    | false =>
      simp only [hcan, ctrlcHandler, Bool.false_eq_true, if_false, runWorker_cancel halive.2,
        Option.map_some, Option.some_inj] at hs
      exact hs ▸ .cancels hcan
  | app b =>
    by_cases hb : b = .cancel
    · subst hb
      cases hs
    · have hs : (binary.run config s.app b).map (fun app => { s with app }) = some s' := by
        cases b with
        | cancel => exact absurd rfl hb
        | work | workPanics | observeCancel | healthStops | healthFails | join => exact hs
      rw [Binary.run_eq] at hs
      obtain ⟨app, happ, rfl⟩ := Option.map_eq_some_iff.1 hs
      exact .app b hb app happ

/-! ### How the process ends -/

/-- What the ways out of the process say about the signals. -/
structure Orderly (s : State) : Prop where
  returned : s.app.process = .ended →
    0 < s.signals ∧ s.app.worker ≠ .looping ∧ s.app.health = .stopped
  exited : s.exited = true → s.signals = 2
  stopped : s.app.worker = .stopped ∨ s.app.health = .stopped → 0 < s.signals

structure Inv (s : State) : Prop where
  cancelled : s.app.cancelled = true ↔ 0 < s.signals
  signals : s.exited = false → s.signals ≤ 1
  orderly : Orderly s

theorem inv_init : Inv init where
  cancelled := by simp [init, Application.init]
  signals _ := Nat.zero_le 1
  orderly :=
    { returned := fun h => (by cases h)
      exited := fun h => (by cases h)
      stopped := fun h => (by rcases h with h | h <;> cases h) }

/-- A step of the tasks, and what it needs. -/
theorem runWorker_frame {t t' : Application.State} {b : Application.Action} (hother : b ≠ .cancel)
    (hs : runWorker config.maxErrors t b = some t') :
    t'.cancelled = t.cancelled ∧
      (t'.process = .ended → t'.worker ≠ .looping ∧ t'.health = .stopped) ∧
      (t'.worker = .stopped → t.worker = .stopped ∨ t.cancelled = true) ∧
      (t'.health = .stopped → t.health = .stopped ∨ t.cancelled = true) := by
  unfold runWorker at hs
  split at hs
  · rename_i hp
    cases b with
    | cancel => exact absurd rfl hother
    | work ok =>
      obtain ⟨hw, hs⟩ := Option.ite_none_right_eq_some.1 hs
      cases hs
      cases ok with
      | true => exact ⟨rfl, by simp [Application.State.afterWork, hp], Or.inl, Or.inl⟩
      | false =>
        refine ⟨rfl, by simp [Application.State.afterWork, hp], fun hstop => ?_, Or.inl⟩
        simp only [Application.State.afterWork, Bool.false_eq_true, if_false] at hstop
        split_ifs at hstop
    | observeCancel =>
      obtain ⟨⟨-, hcan⟩, hs⟩ := Option.ite_none_right_eq_some.1 hs
      cases hs
      simp [hp, hcan]
    | healthStops =>
      obtain ⟨⟨-, hcan⟩, hs⟩ := Option.ite_none_right_eq_some.1 hs
      cases hs
      simp [hp, hcan]
    | join =>
      obtain ⟨⟨hw, hh⟩, hs⟩ := Option.ite_none_right_eq_some.1 hs
      cases hs
      exact ⟨rfl, fun _ => ⟨hw, hh⟩, Or.inl, Or.inl⟩
    | workPanics | healthFails =>
      obtain ⟨-, hs⟩ := Option.ite_none_right_eq_some.1 hs
      cases hs
      exact ⟨rfl, fun h => (by cases h), Or.inl, Or.inl⟩
  · cases hs

theorem inv_step (h : Inv s) (hs : step binary config s a = some s') : Inv s' := by
  obtain ⟨⟨hexited, hp⟩, hmoves⟩ := moves_of_step hs
  have hone := h.signals hexited
  cases hmoves with
  | exits hcan =>
    have hpos := h.cancelled.1 hcan
    refine ⟨⟨fun _ => Nat.succ_pos _, fun _ => hcan⟩, fun hno => (by cases hno), ?_, ?_, ?_⟩
    · intro hended
      simp [hp] at hended
    · intro _
      show s.signals + 1 = 2
      omega
    · exact fun _ => Nat.succ_pos _
  | cancels hcan =>
    have hzero : s.signals = 0 := by
      by_contra hne
      rw [h.cancelled.2 (Nat.pos_of_ne_zero hne)] at hcan
      cases hcan
    refine ⟨⟨fun _ => Nat.succ_pos _, fun _ => rfl⟩, fun _ => ?_, ?_, ?_, ?_⟩
    · show s.signals + 1 ≤ 1
      omega
    · intro hended
      simp [hp] at hended
    · intro hexit
      simp [hexited] at hexit
    · exact fun _ => Nat.succ_pos _
  | app b hother app happ =>
    obtain ⟨hcan, hended, hworker, hhealth⟩ := runWorker_frame hother happ
    have hstopped : app.worker = .stopped ∨ app.health = .stopped → 0 < s.signals := by
      rintro (hw | hh)
      · exact (hworker hw).elim (fun hw => h.orderly.stopped (Or.inl hw)) h.cancelled.1
      · exact (hhealth hh).elim (fun hh => h.orderly.stopped (Or.inr hh)) h.cancelled.1
    refine ⟨hcan ▸ h.cancelled, h.signals, fun he => ?_, h.orderly.exited, hstopped⟩
    exact ⟨hstopped (Or.inr (hended he).2), hended he⟩

theorem inv_of_reach (h : Reach (ofFn (step binary config)) init s) : Inv s :=
  h.invariant inv_init fun _ _ _ => inv_step

/-! ### That it ends -/

/-- The tasks of the process. -/
inductive Task
  | worker
  | health
  | main

def Task.labels : Task → Set Action
  | .worker => {.app .observeCancel}
  | .health => {.app .healthStops}
  | .main => {.app .join}

/-- The tasks that `try_join!` waits for. -/
def rank (s : State) : ℕ :=
  (if s.app.worker = .looping then 1 else 0) + if s.app.health = .serving then 1 else 0

def helper (s : State) : Task :=
  if s.app.worker = .looping then .worker else if s.app.health = .serving then .health else .main

theorem enabled_helper (hcan : s.app.cancelled = true) (halive : s.Alive) :
    Enabled (ofFn (step binary config)) (helper s).labels s := by
  have hp := halive.2
  unfold helper
  split_ifs with hw hh
  · exact ⟨.app .observeCancel, rfl, { s with app := { s.app with worker := .stopped } },
      by simp [ofFn, step, halive, Binary.run_eq, runWorker, hp, hw, hcan]⟩
  · exact ⟨.app .healthStops, rfl, { s with app := { s.app with health := .stopped } },
      by simp [ofFn, step, halive, Binary.run_eq, runWorker, hp, hh, hcan]⟩
  · have hstop : s.app.health = .stopped := by
      cases hhealth : s.app.health with
      | serving => exact absurd hhealth hh
      | stopped => rfl
    exact ⟨.app .join, rfl, { s with app := { s.app with process := .ended } },
      by simp [ofFn, step, halive, Binary.run_eq, runWorker, hp, hw, hstop]⟩

/-- A step of the tasks ends one of them, or the process, or is a call that returns. -/
theorem rank_runWorker {b : Application.Action} {app : Application.State} (hother : b ≠ .cancel)
    (happ : runWorker config.maxErrors s.app b = some app) :
    app.process ≠ .running ∨ rank { s with app } < rank s ∨
      rank { s with app } = rank s ∧ helper { s with app } = helper s ∧ ∃ ok, b = .work ok := by
  unfold runWorker at happ
  split at happ
  · cases b with
    | cancel => exact absurd rfl hother
    | work ok =>
      obtain ⟨hw, happ⟩ := Option.ite_none_right_eq_some.1 happ
      cases happ
      by_cases hgave : (s.app.afterWork config.maxErrors ok).worker = .looping
      · have hhealth : (s.app.afterWork config.maxErrors ok).health = s.app.health := by
          cases ok <;> rfl
        refine Or.inr (Or.inr ⟨?_, ?_, ok, rfl⟩)
        · simp [rank, hgave, hw, hhealth]
        · simp [helper, hgave, hw]
      · have hhealth : (s.app.afterWork config.maxErrors ok).health = s.app.health := by
          cases ok <;> rfl
        refine Or.inr (Or.inl ?_)
        simp [rank, hgave, hw, hhealth]
    | observeCancel =>
      obtain ⟨⟨hw, -⟩, happ⟩ := Option.ite_none_right_eq_some.1 happ
      cases happ
      refine Or.inr (Or.inl ?_)
      simp [rank, hw]
    | healthStops =>
      obtain ⟨⟨hh, -⟩, happ⟩ := Option.ite_none_right_eq_some.1 happ
      cases happ
      refine Or.inr (Or.inl ?_)
      simp [rank, hh]
    | workPanics | healthFails | join =>
      obtain ⟨-, happ⟩ := Option.ite_none_right_eq_some.1 happ
      cases happ
      exact Or.inl (by simp)
  · cases happ

/-- After the cancellation the tasks end one after the other. -/
theorem ranking (binary : Binary) (config : Config) :
    Ranking (ofFn (step binary config)) Task.labels (fun s => s.app.cancelled = true)
      (fun s => ¬ s.Alive) rank helper where
  enabled s hcan halive := enabled_helper hcan (not_not.1 halive)
  step s a s' hcan halive hs := by
    cases (moves_of_step hs).2 with
    | exits => exact Or.inl fun h => by cases h.1
    | cancels hno => simp [hcan] at hno
    | app b hother app happ =>
      have hcan' : app.cancelled = true := (runWorker_frame hother happ).1.trans hcan
      rcases rank_runWorker hother happ with hp | hlt | ⟨hrank, hhelper, ok, rfl⟩
      · exact Or.inl fun h => hp h.2
      · exact Or.inr ⟨hcan', Or.inl hlt⟩
      · refine Or.inr ⟨hcan', Or.inr ⟨hrank, hhelper, ?_⟩⟩
        cases helper s <;> simp [Task.labels]

/-- **Ctrl-C ends both binaries.**  In an execution that is fair to the tasks of the process, the
process returns from `main` after a Ctrl-C, unless a task panics or a second Ctrl-C exits it; and in
no reachable state has it ended in another way, or returned with its worker in the loop or its
health server serving. -/
theorem binary_ends_once_interrupted (binary : Binary) (config : Config) :
    (∀ s, Reach (ofFn (step binary config)) init s → Orderly s) ∧
    ∀ ρ : Execution (ofFn (step binary config)), ρ.state 0 = init →
      (∀ task : Task, ρ.FairTo task.labels) →
      ∀ n, 0 < (ρ.state n).signals → ∃ m ≥ n,
        (ρ.state m).app.process = .ended ∨ (ρ.state m).app.process = .panicked ∨
          (ρ.state m).exited = true := by
  refine ⟨fun s h => (inv_of_reach h).orderly, fun ρ h0 hfair n hsig => ?_⟩
  have hinv : Inv (ρ.state n) := inv_of_reach (h0 ▸ ρ.reach n)
  obtain ⟨m, hm, hover⟩ := (ranking binary config).leadsTo ρ hfair (hinv.cancelled.2 hsig)
  refine ⟨m, hm, ?_⟩
  cases hexit : (ρ.state m).exited with
  | true => exact Or.inr (Or.inr rfl)
  | false =>
    cases hp : (ρ.state m).app.process with
    | running => exact absurd ⟨hexit, hp⟩ hover
    | ended => exact Or.inl rfl
    | panicked => exact Or.inr (Or.inl rfl)

/-- A subscriber whose worker gives up, and which is interrupted after that. -/
def giveUpThenCtrlC : List Action :=
  [.app (.work false), .ctrlc, .app .healthStops, .app .join]

/-- The theorem on that run. -/
theorem binary_ends_once_interrupted_returns :
    ∃ ρ : Execution (ofFn (step .amplifierSubscriber ⟨1⟩)), ρ.state 0 = init ∧
      (∀ n, Orderly (ρ.state n)) ∧ ∃ m,
        (ρ.state m).app.process = .ended ∨ (ρ.state m).app.process = .panicked ∨
          (ρ.state m).exited = true := by
  obtain ⟨s, hs, hp⟩ := Option.map_eq_some_iff.1
    (show (exec (step .amplifierSubscriber ⟨1⟩) init giveUpThenCtrlC).map (fun s =>
      s.signals == 1 && s.app.process == .ended) = some true by decide)
  obtain ⟨hsig, hended⟩ := Bool.and_eq_true_iff.1 hp
  have hover : ¬ s.Alive := fun h => by simp [h.2] at hended
  have hfair : ∀ task : Task, (ofExec hs).FairTo task.labels := fun task =>
    fairTo_ofExec hs fun a _ => if_neg hover
  have hlate : 0 < ((ofExec hs).state giveUpThenCtrlC.length).signals := by
    rw [ofExec_of_le hs le_rfl, show s.signals = 1 by simpa using hsig]
    exact Nat.one_pos
  obtain ⟨horderly, hends⟩ := binary_ends_once_interrupted .amplifierSubscriber ⟨1⟩
  obtain ⟨m, -, hm⟩ := hends (ofExec hs) (ofExec_zero hs) hfair _ hlate
  refine ⟨ofExec hs, ofExec_zero hs, fun n => horderly _ ?_, m, hm⟩
  have hreach := (ofExec hs).reach n
  rw [ofExec_zero hs] at hreach
  exact hreach

end CtrlC
end Application
end RelayerCore
