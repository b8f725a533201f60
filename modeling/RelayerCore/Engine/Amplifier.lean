import RelayerCore.Amplifier.Ends
import RelayerCore.Engine.Shutdown

/-!
# The engine with the Amplifier component

The Amplifier component runs in the engine beside any other components.  It never returns `Ok`, so
that the engine does not outlive it; and what its publishing and polling halves promise holds in
every run of the engine, also while it shuts down and drops the component.
-/

namespace RelayerCore
namespace Engine

open TaskSet Machine Amplifier

/-- An engine whose first component is the Amplifier component. -/
def withAmplifier (config : Amplifier.Config) (client : ToAmplifier.AmplifierApiClient)
    (past : FromAmplifier.State) {n : ℕ} (others : Fin n → RelayerComponent) : RelayerEngine where
  size := n + 1
  components := Fin.cons (process config client past) others

section WithAmplifier

variable {config : Amplifier.Config} {client : ToAmplifier.AmplifierApiClient}
  {past : FromAmplifier.State} {n : ℕ} {others : Fin n → RelayerComponent}

/-- The task of the Amplifier component. -/
abbrev amplifierTask : Option (Fin (withAmplifier config client past others).size) :=
  some (0 : Fin (n + 1))

def State.amplifierSlot (s : State (withAmplifier config client past others)) :
    Slot (process config client past) := s.slots amplifierTask

def State.amplifier (s : State (withAmplifier config client past others)) : Amplifier.State :=
  s.amplifierSlot.state

variable {s : State (withAmplifier config client past others)}

theorem lives_amplifier (h : Inv s) :
    (process config client past).Lives s.amplifierSlot.status.dropped s.amplifier :=
  (h.sound amplifierTask).lives

theorem reach_amplifier (h : Inv s) (halive : s.amplifierSlot.status.alive = true) :
    Reach (ofFn (Amplifier.step config client)) (new past) s.amplifier :=
  (h.sound amplifierTask).reach halive

/-- The task of the Amplifier component never ends with `Ok`. -/
theorem exit_ne_ok (h : Inv s) : s.amplifierSlot.status.exit ≠ some .ok := by
  intro hok
  have hresult : s.amplifier.result = some true :=
    (h.sound amplifierTask).result .ok hok (Or.inl rfl)
  exact result_of_neverOk (neverOk_of_lives (lives_amplifier h)) hresult

/-- Once the Amplifier component has returned, a fair engine returns too. -/
theorem returns_with_amplifier
    (ρ : Execution (ofFn (@step (withAmplifier config client past others))))
    (hfair : ∀ H : Helper (withAmplifier config client past others), ρ.FairTo H.labels) {k : ℕ}
    (hinv : Inv (ρ.state k)) (hexit : (ρ.state k).amplifier.phase.isExited = true) :
    ∃ m ≥ k, (ρ.state m).control = .returned := by
  have hresult := result_of_exited (neverOk_of_lives (lives_amplifier hinv)) hexit
  exact returns_of_failure ρ hfair hinv
    (shutdownDue_of_failure hinv ⟨amplifierTask, Or.inl hresult⟩)

/-- **The engine does not outlive the Amplifier component.**  In no reachable state has its task
ended with `Ok`, so that it is not collected before the shutdown, and in a fair execution the engine
returns once one of its subprocesses has returned. -/
theorem engine_ends_with_amplifier :
    (∀ s : State (withAmplifier config client past others), Reach (ofFn step) (init _) s →
      s.amplifierSlot.status.exit ≠ some .ok ∧
        (s.control = .joining → s.amplifierSlot.status.isJoined = false)) ∧
    ∀ ρ : Execution (ofFn (@step (withAmplifier config client past others))),
      ρ.state 0 = init _ →
      (∀ H : Helper (withAmplifier config client past others), ρ.FairTo H.labels) →
      ∀ k, (ρ.state k).amplifier.phase.isExited = true →
        ∃ m ≥ k, (ρ.state m).control = .returned := by
  refine ⟨fun s h => ?_, fun ρ h0 hfair k => ?_⟩
  · have hinv := inv_of_reach h
    refine ⟨exit_ne_ok hinv, fun hc => ?_⟩
    by_contra hno
    have hok := (hinv.undisturbed hc amplifierTask).joined (Bool.not_eq_false _ ▸ hno)
    exact exit_ne_ok hinv (congrArg TaskStatus.exit hok)
  · exact returns_with_amplifier ρ hfair (inv_of_reach (h0 ▸ ρ.reach k))

/-! ### The last client -/

/-- The steps of the Amplifier component. -/
def Action.ofAmplifier :
    Action (withAmplifier config client past others) → Option Amplifier.Action
  | .task (some ⟨0, _⟩) (.move a) => some a
  | _ => none

theorem ofAmplifier_eq_some {a : Action (withAmplifier config client past others)}
    {b : Amplifier.Action} (h : a.ofAmplifier = some b) : a = .task amplifierTask (.move b) := by
  unfold Action.ofAmplifier at h
  split at h
  · cases h
    rfl
  · cases h

/-- The tasks of the publishing half are not overlooked. -/
def Prompt (s : State (withAmplifier config client past others))
    (a : Action (withAmplifier config client past others)) : Prop :=
  ∀ b, a.ofAmplifier = some b → Amplifier.Prompt s.amplifier b

instance (s : State (withAmplifier config client past others))
    (a : Action (withAmplifier config client past others)) : Decidable (Prompt s a) :=
  match h : a.ofAmplifier with
  | none => .isTrue fun b hb => absurd (h.symm.trans hb) (by simp)
  | some b => decidable_of_iff (Amplifier.Prompt s.amplifier b)
      ⟨fun hp b' hb' => Option.some.inj (h.symm.trans hb') ▸ hp, fun hp => hp b h⟩

/-- The steps of the component that its helper takes. -/
def amplifierLabels (H : Amplifier.Helper) :
    Set (Action (withAmplifier config client past others)) :=
  {a | ∃ b ∈ H.labels, a = .task amplifierTask (.move b)}

omit config client past others in
/-- A change of statuses leaves the states of the tasks as they are. -/
theorem state_setStatus {engine : RelayerEngine} (slots : Slots engine.tasks)
    (i j : Option (Fin engine.size)) (status : TaskStatus) :
    (Function.update slots i ((slots i).setStatus status) j).state = (slots j).state := by
  by_cases hji : j = i
  · subst hji
    rw [Function.update_self]
    rfl
  · rw [Function.update_of_ne hji]

/-- A step of another task leaves the component as it is. -/
theorem amplifier_update {i : Option (Fin (withAmplifier config client past others).size)}
    {slot : Slot ((withAmplifier config client past others).tasks i)} (hi : amplifierTask ≠ i) :
    State.amplifierSlot { s with slots := Function.update s.slots i slot } = s.amplifierSlot := by
  unfold State.amplifierSlot
  dsimp only
  rw [Function.update_of_ne hi]

/-- As long as its task is alive, a step of the engine is a step of the Amplifier component or
leaves its state as it is. -/
theorem ofAmplifier_moves {s' : State (withAmplifier config client past others)}
    {a : Action (withAmplifier config client past others)} (hs : step s a = some s')
    (halive : s'.amplifierSlot.status.alive = true) :
    (∀ b, a.ofAmplifier = some b → Amplifier.step config client s.amplifier b = some s'.amplifier) ∧
      (a.ofAmplifier = none → s'.amplifier = s.amplifier) := by
  cases moves_of_step hs with
  | task i e slot hslot =>
    by_cases hi : i = amplifierTask
    · subst hi
      have hself : State.amplifierSlot { s with
          slots := Function.update s.slots amplifierTask slot } = slot := by
        unfold State.amplifierSlot
        dsimp only
        rw [Function.update_self]
      have halive : slot.status.alive = true := hself ▸ halive
      rcases Slot.step_cases hslot with ⟨b, t, rfl, -, ht, rfl⟩ | ⟨ok, rfl, -, -, rfl⟩ |
        ⟨rfl, -, rfl⟩ | ⟨rfl, -, rfl⟩
      · refine ⟨fun b' hb' => ?_, fun hno => (by cases hno)⟩
        cases hb'
        exact ht.trans (congrArg some (congrArg Slot.state hself).symm)
      all_goals cases halive
    · refine ⟨fun b' hb' => ?_, fun _ => congrArg Slot.state (amplifier_update (Ne.symm hi))⟩
      cases ofAmplifier_eq_some hb'
      exact absurd rfl hi
  | leave i hc hi => exact ⟨fun b' hb' => (by cases hb'), fun _ => state_setStatus s.slots i _ _⟩
  | fail i exit hc hi hexit =>
    exact ⟨fun b' hb' => (by cases hb'), fun _ => state_setStatus s.slots i _ _⟩
  | collect i exit hc hi =>
    exact ⟨fun b' hb' => (by cases hb'), fun _ => state_setStatus s.slots i _ _⟩
  | empty hc hempty => exact ⟨fun b' hb' => (by cases hb'), fun _ => rfl⟩
  | finish hc hempty => exact ⟨fun b' hb' => (by cases hb'), fun _ => rfl⟩

/-- The engine's own steps are not overlooked. -/
theorem prompt_of_helper {H : Helper (withAmplifier config client past others)}
    {a : Action (withAmplifier config client past others)} (ha : a ∈ H.labels) : Prompt s a := by
  intro b hb
  rw [ofAmplifier_eq_some hb] at ha
  exact absurd ha (move_not_mem H amplifierTask b)

/-- While its task is alive, the component can take its steps in the engine. -/
theorem enabled_amplifier (halive : s.amplifierSlot.status.alive = true) (H : Amplifier.Helper)
    (h : Enabled (when (ofFn (Amplifier.step config client)) Amplifier.Prompt) H.labels
      s.amplifier) :
    Enabled (when (ofFn step) Prompt) (amplifierLabels H) s := by
  obtain ⟨b, hb, t, hprompt, ht⟩ := h
  refine ⟨.task amplifierTask (.move b), ⟨b, hb, rfl⟩, ⟨s.control,
    Function.update s.slots amplifierTask ((s.slots amplifierTask).setState t)⟩, ?_, ?_⟩
  · intro b' hb'
    cases hb'
    exact hprompt
  · have hs : (process config client past).step (s.slots amplifierTask).state b = some t := ht
    have halive : (s.slots amplifierTask).status.alive = true := halive
    have hslot : (s.slots amplifierTask).step (.move b) =
        some ((s.slots amplifierTask).setState t) := by
      show (if _ then none else _) = _
      rw [if_neg (by simp [halive])]
      exact congrArg (Option.map _) hs
    show (s.slots.step amplifierTask (.move b)).map _ = _
    rw [Slots.step_eq_some.2 ⟨_, hslot, rfl⟩]
    rfl

/-- A task of the component that is over has a failure to tell, or the engine is shutting down. -/
theorem due_of_not_alive (h : Inv s) (hdead : s.amplifierSlot.status.alive = false)
    (hexit : s.amplifier.phase.isExited = false) : ShutdownDue s ∨ s.control = .returned := by
  have hresult : ∀ ok, s.amplifier.result ≠ some ok := by
    intro ok hr
    obtain ⟨result, hphase, -⟩ := result_eq_some.1 hr
    rw [hphase] at hexit
    cases hexit
  obtain ⟨exit, hex⟩ : ∃ exit, s.amplifierSlot.status.exit = some exit := by
    revert hdead
    cases s.amplifierSlot.status <;> simp [TaskStatus.alive, TaskStatus.exit]
  cases exit with
  | ok => exact absurd ((h.sound amplifierTask).result .ok hex (Or.inl rfl)) (hresult true)
  | err => exact absurd ((h.sound amplifierTask).result .err hex (Or.inr rfl)) (hresult false)
  | panicked => exact shutdownDue_of_failure h ⟨amplifierTask, Or.inr hex⟩
  | cancelled =>
    cases hc : s.control with
    | joining => exact absurd hex (h.undisturbed hc amplifierTask).cancelled
    | shuttingDown => exact Or.inl (Or.inl hc)
    | returned => exact Or.inr rfl

/-- **Dropping the last command client shuts the relayer down.**  In an execution that is fair to
the engine and to the Amplifier component, whatever the other components do, the engine returns once
no client is left. -/
theorem engine_returns_once_clients_gone
    (ρ : Execution (when (ofFn (@step (withAmplifier config client past others))) Prompt))
    (h0 : ρ.state 0 = init _)
    (hfair : ∀ H : Helper (withAmplifier config client past others), ρ.FairTo H.labels)
    (hcomponent : ∀ H : Amplifier.Helper, ρ.FairTo (amplifierLabels H)) {k : ℕ}
    (hclosed : (ρ.state k).amplifier.toAmplifier.senders = false) :
    ∃ m ≥ k, (ρ.state m).control = .returned := by
  by_contra hno
  have hinv : ∀ m, Inv (ρ.state m) := fun m => inv_of_reach (h0 ▸ (ρ.reach m).of_when)
  have hfair' : ∀ H : Helper _, (ρ.mono fun _ _ _ hs => hs.2).FairTo H.labels := fun H =>
    (hfair H).mono _ fun _ ⟨a, ha, t, ht⟩ => ⟨a, ha, t, prompt_of_helper ha, ht⟩
  have hrunning : ∀ m ≥ k, (ρ.state m).amplifier.phase.isExited = false := by
    intro m hm
    by_contra hexit
    obtain ⟨m', hm', hc⟩ := returns_with_amplifier _ hfair' (hinv m)
      (Bool.not_eq_false _ ▸ hexit)
    exact hno ⟨m', le_trans hm hm', hc⟩
  have halive : ∀ m ≥ k, (ρ.state m).amplifierSlot.status.alive = true := by
    intro m hm
    by_contra hdead
    obtain ⟨m', hm', hc⟩ := returns_of_failure _ hfair' (hinv m)
      (due_of_not_alive (hinv m) (Bool.not_eq_true _ ▸ hdead) (hrunning m hm))
    exact hno ⟨m', le_trans hm hm', hc⟩
  have hmoves : ∀ m a, (ρ.drop k).label m = some a → _ := fun m a ha =>
    ofAmplifier_moves ((ρ.drop k).moves m a ha).2 (halive (m + 1 + k) (by omega))
  -- the Amplifier component alone
  let τ : Execution (when (ofFn (Amplifier.step config client)) Amplifier.Prompt) :=
    (ρ.drop k).project State.amplifier Action.ofAmplifier
      (fun m a ha b hb => ⟨((ρ.drop k).moves m a ha).1 b hb, (hmoves m a ha).1 b hb⟩)
      fun m a ha hnone => (hmoves m a ha).2 hnone
  have hτfair : ∀ H : Amplifier.Helper, τ.FairTo H.labels := by
    intro H
    refine ((hcomponent H).drop k).project
      (fun m henabled => enabled_amplifier (halive (m + k) (by omega)) H henabled) ?_
    rintro a ⟨b, hb, rfl⟩
    exact ⟨b, hb, rfl⟩
  have hzero : τ.state 0 = (ρ.state k).amplifier :=
    congrArg (fun m => (ρ.state m).amplifier) (Nat.zero_add k)
  have hreach := reach_amplifier (hinv k) (halive k le_rfl)
  rw [← hzero] at hclosed hreach
  obtain ⟨m, -, hexit⟩ := component_returns_once_closed τ hreach hτfair hclosed
  have hgoes : (τ.state m).phase.isExited = false := hrunning (m + k) (by omega)
  rw [hgoes] at hexit
  cases hexit

/-! ### What the component promises, in every engine -/

/-- The component was dropped only if its task panicked, or was aborted in the shutdown. -/
theorem cause_of_dropped (h : Inv s) (hphase : s.amplifier.phase = .dropped) :
    s.amplifierSlot.status.exit = some .panicked ∨
      s.amplifierSlot.status.exit = some .cancelled ∧ s.control ≠ .joining := by
  cases hd : s.amplifierSlot.status.dropped with
  | false => exact absurd hphase (phase_of_reach ((lives_amplifier h).undropped_reach hd))
  | true =>
    refine (TaskStatus.exit_of_dropped hd).imp_right fun hcancelled => ⟨hcancelled, fun hc => ?_⟩
    exact (h.undisturbed hc amplifierTask).cancelled hcancelled

/-- **The Amplifier component keeps its commands in every engine**, also when it is dropped. -/
theorem engine_keeps_commands (h : Reach (ofFn step) (init _) s) :
    KeepsCommands client config.chain s.amplifier ∧
      (s.amplifier.phase = .dropped → s.amplifierSlot.status.exit = some .panicked ∨
        s.amplifierSlot.status.exit = some .cancelled ∧ s.control ≠ .joining) :=
  have hinv := inv_of_reach h
  ⟨keepsCommands_of_lives (lives_amplifier hinv), cause_of_dropped hinv⟩

/-- **The Amplifier component skips no task in any engine**, whatever earlier processes have
left. -/
theorem engine_skips_none
    (hpast : Reach (ofFn (FromAmplifier.step config.getChainsLimit)) FromAmplifier.init past)
    (h : Reach (ofFn step) (init _) s) : FromAmplifier.NeverSkips s.amplifier.fromAmplifier := by
  have hlive : Reach (ofFn (FromAmplifier.step config.getChainsLimit)) past.crash
      s.amplifier.fromAmplifier :=
    fromAmplifier_of_lives (lives_amplifier (inv_of_reach h))
  have hcrash : Reach (ofFn (FromAmplifier.step config.getChainsLimit)) past past.crash :=
    .single (a := .crash) rfl
  have hsafe : Cursor.Safe FromAmplifier.init.toCursor := Feed.covers_none _ _
  exact (Cursor.safe_of_refines FromAmplifier.refines_cursor
    ⟨hsafe, FromAmplifier.pending_boot .empty none none⟩ hsafe
    ((hpast.trans hcrash).trans hlive)).done

end WithAmplifier

/-! ### An engine with nothing but the component -/

abbrev amplifierOnly : RelayerEngine :=
  withAmplifier ⟨true, "solana", 10, 5⟩ ToAmplifier.emptyClient FromAmplifier.init
    (n := 0) Fin.elim0

def ofComponent (a : Amplifier.Action) : Action amplifierOnly := .task amplifierTask (.move a)

/-- The component starts, its only client goes, and the engine shuts down. -/
def startThenClose : List (Action amplifierOnly) :=
  [ofComponent (.setUp (.ok ()) true), ofComponent (.toAmplifier .close),
    ofComponent (.toAmplifier .poll), ofComponent (.toAmplifier (.joinNext none)),
    .task amplifierTask .finish, .joinNext (some amplifierTask), .task none .cancel,
    .joinNext (some none), .joinNext none]

theorem exec_startThenClose : (exec (guarded (@step amplifierOnly) Prompt) (init amplifierOnly)
    startThenClose).map (fun s => decide (s.control = .returned ∧ s.slots.Empty ∧
      s.amplifier.toAmplifier.jobs = [])) = some true := by decide

theorem step_of_gone {s : State amplifierOnly} {a : Action amplifierOnly}
    (hempty : s.slots.Empty) (hjobs : s.amplifier.toAmplifier.jobs = []) {H : Amplifier.Helper}
    (ha : a ∈ amplifierLabels H) : step s a = none := by
  obtain ⟨b, hb, rfl⟩ := ha
  have hdead : (s.slots amplifierTask).status.alive = false := by
    have hjoined := hempty amplifierTask
    revert hjoined
    cases (s.slots amplifierTask).status <;> simp [TaskStatus.alive, TaskStatus.isJoined]
  have hslot : (s.slots amplifierTask).step (.move b) = none := by
    show (if _ then none else _) = none
    rw [hdead]
    split_ifs with hown
    · rfl
    · have hown : (amplifierOnly.tasks amplifierTask).own b = false := by simpa using hown
      have hown : b.own = false := hown
      cases H with
      | setUp =>
        obtain ⟨made, clock, rfl⟩ := hb
        cases hown
      | toAmplifier H =>
        obtain ⟨c, hc, rfl⟩ := hb
        have hstep : ToAmplifier.step ToAmplifier.emptyClient "solana" s.amplifier.toAmplifier c =
            none := by
          cases H with
          | process => rcases hc with rfl | ⟨ready, rfl⟩ <;> cases hown
          | task i =>
            rcases hc with rfl | ⟨execution, rfl⟩ <;>
              simp [ToAmplifier.step, ToAmplifier.stepTask, hjobs]
        have hnone : Amplifier.step ⟨true, "solana", 10, 5⟩ ToAmplifier.emptyClient s.amplifier
            (.toAmplifier c) = none := by
          simp [Amplifier.step, hstep]
        exact congrArg (Option.map _) hnone
  simp [step, Slots.step, hslot]

/-- The theorem on the run in which the only client goes. -/
theorem engine_returned_without_clients :
    ∃ ρ : Execution (when (ofFn (@step amplifierOnly)) Prompt), ∃ m,
      ρ.state 0 = init amplifierOnly ∧ (ρ.state m).control = .returned := by
  obtain ⟨s, hs, hp⟩ := Option.map_eq_some_iff.1 exec_startThenClose
  obtain ⟨hc, hempty, hjobs⟩ := of_decide_eq_true hp
  have hclosed : ((ofExecWhen hs).state 2).amplifier.toAmplifier.senders = false := by
    show (stateAfter (guarded (@step amplifierOnly) Prompt) (init amplifierOnly) startThenClose
      2).amplifier.toAmplifier.senders = false
    decide
  obtain ⟨m, -, hm⟩ := engine_returns_once_clients_gone (ofExecWhen hs) (ofExec_zero hs)
    (fun H => fairTo_ofExecWhen hs fun _ => step_of_returned hc hempty)
    (fun H => fairTo_ofExecWhen hs fun _ => step_of_gone hempty hjobs) hclosed
  exact ⟨ofExecWhen hs, m, ofExec_zero hs, hm⟩

/-- The theorem on the same run: the engine returns after the component. -/
theorem engine_ended_with_amplifier :
    ∃ ρ : Execution (ofFn (@step amplifierOnly)), ∃ m,
      ρ.state 0 = init amplifierOnly ∧ (ρ.state m).control = .returned := by
  obtain ⟨s, hs, hp⟩ := Option.map_eq_some_iff.1
    (show (exec (@step amplifierOnly) (init amplifierOnly) startThenClose).map
      (fun s => decide (s.control = .returned ∧ s.slots.Empty)) = some true by decide)
  obtain ⟨hc, hempty⟩ := of_decide_eq_true hp
  have hexit : ((ofExec hs).state 4).amplifier.phase.isExited = true := by
    show (stateAfter (@step amplifierOnly) (init amplifierOnly) startThenClose
      4).amplifier.phase.isExited = true
    decide
  obtain ⟨m, -, hm⟩ := engine_ends_with_amplifier.2 (ofExec hs) (ofExec_zero hs)
    (fun H => fairTo_ofExec hs fun _ => step_of_returned hc hempty) 4 hexit
  exact ⟨ofExec hs, m, ofExec_zero hs, hm⟩

/-- The theorem on a run in which a command is received, and the component dropped for a Ctrl-C. -/
theorem engine_keeps_received_command : ∃ s : State amplifierOnly,
    s.amplifier.toAmplifier.jobs.map ToAmplifier.Job.command = [.publishEvents ⟨[]⟩] ∧
      s.amplifier.phase = .dropped ∧
      KeepsCommands ToAmplifier.emptyClient "solana" s.amplifier ∧
      (s.amplifier.phase = .dropped → s.amplifierSlot.status.exit = some .panicked ∨
        s.amplifierSlot.status.exit = some .cancelled ∧ s.control ≠ .joining) := by
  obtain ⟨s, hs, hp⟩ := exists_reach_of_exec step (init amplifierOnly)
    [ofComponent (.toAmplifier (.send (.publishEvents ⟨[]⟩))), ofComponent (.setUp (.ok ()) true),
      ofComponent (.toAmplifier .poll), .task none (.move ()), .task none .finish,
      .joinNext (some none), .task amplifierTask .cancel]
    (fun s => decide (s.amplifier.toAmplifier.jobs.map ToAmplifier.Job.command =
      [.publishEvents ⟨[]⟩] ∧ s.amplifier.phase = .dropped)) (by decide)
  obtain ⟨hjobs, hphase⟩ := of_decide_eq_true hp
  exact ⟨s, hjobs, hphase, engine_keeps_commands hs⟩

/-- The theorem on a run in which a task is handled, in a process that finds nothing stored. -/
theorem engine_skips_none_handled : ∃ s : State amplifierOnly,
    s.amplifier.fromAmplifier.latestProcessed = some ⟨1⟩ ∧
      FromAmplifier.NeverSkips s.amplifier.fromAmplifier := by
  let t : TaskItem := ⟨⟨1⟩, ⟨5, 0⟩, .gatewayTx ⟨[]⟩⟩
  have hexec : (exec (@step amplifierOnly) (init amplifierOnly)
      (ofComponent (.setUp (.ok ()) true) :: ([.start .ok, .listTask t, .tick, .readProcessed,
        .readQueried true, .respond 0 (.ok ⟨[t]⟩), .send 0, .setQueried 0 .ok, .take, .handle,
        .record .ok].map fun a => ofComponent (.fromAmplifier a)))).map
      (fun s => s.amplifier.fromAmplifier.latestProcessed == some ⟨1⟩) = some true := by decide
  obtain ⟨s, hs, hp⟩ := exists_reach_of_exec step (init amplifierOnly) _ _ hexec
  exact ⟨s, by simpa using hp, engine_skips_none .refl hs⟩

end Engine
end RelayerCore
