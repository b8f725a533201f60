import RelayerCore.Supervisor.Model

/-!
# Every worker is running, reported or being rebuilt

A configured name is held by exactly one of: the supervisor (not reached yet, or being built), a
worker thread that has not passed its final reporting step, or a crash report in the channel.
`tokens` counts the holders.  No step creates one (`tokens_step_le`), and as long as the token is
not cancelled the only step that destroys one is the check at the end of a worker thread
(`tokens_step_eq`): it reports the crash only if the token *is* cancelled.
-/

namespace RelayerCore
namespace Supervisor

open Machine

/-- The names the supervisor itself holds: those not reached yet, and the one being rebuilt. -/
def Control.holding (builders : WorkerBuilders) : Control → List WorkerName
  | .booting | .bootFailed => builders.names
  | .startup rest => rest
  | .startupBuilding name rest => name :: rest
  | .received name | .building name => [name]
  | _ => []

/-- The names the start-up pass has not reached. -/
def Control.unreached (builders : WorkerBuilders) : Control → List WorkerName
  | .booting | .bootFailed => builders.names
  | .startup rest | .startupBuilding _ rest => rest
  | _ => []

/-- The name whose build is in progress in the supervisor. -/
def Control.rebuilding : Control → Option WorkerName
  | .startupBuilding name _ | .received name | .building name => some name
  | _ => none

/-- A thread of the name that has not passed its final reporting step. -/
def Thread.live (name : WorkerName) (t : Thread) : Bool := t.name = name ∧ t.stage.passed = false

/-- How many threads and waiting reports hold the name. -/
def outside (s : State) (name : WorkerName) : ℕ :=
  s.threads.countP (Thread.live name) + s.channel.count name

/-- How many times the name is held. -/
def tokens (builders : WorkerBuilders) (s : State) (name : WorkerName) : ℕ :=
  outside s name + (s.control.holding builders).count name

/-- The name has a running thread, a waiting report or a rebuild in progress. -/
def Attended (s : State) (name : WorkerName) : Prop :=
  (∃ t ∈ s.threads, t.name = name ∧ t.stage.passed = false) ∨ name ∈ s.channel ∨
    s.control.rebuilding = some name

/-- Until the token is cancelled, every name the start-up pass has reached is attended to. -/
def NoneLost (builders : WorkerBuilders) (s : State) : Prop :=
  s.cancelled = false → ∀ name ∈ builders.names, name ∉ s.control.unreached builders →
    Attended s name

/-- A thread whose work is over finds the token cancelled when it looks. -/
def RestartedStep (s : State) : Action → Prop
  | .check _ => s.cancelled = true
  | _ => True

instance (s : State) (a : Action) : Decidable (RestartedStep s a) := by
  unfold RestartedStep
  split <;> infer_instance

variable {builders : WorkerBuilders} {s s' : State}

theorem holding_eq (c : Control) :
    c.holding builders = c.rebuilding.toList ++ c.unreached builders := by
  cases c <;> rfl

theorem attended_of_tokens {name : WorkerName} (h : 0 < tokens builders s name)
    (hname : name ∉ s.control.unreached builders) : Attended s name := by
  have hcount : (s.control.holding builders).count name =
      s.control.rebuilding.toList.count name := by
    rw [holding_eq, List.count_append, List.count_eq_zero_of_not_mem hname, Nat.add_zero]
  rw [tokens, outside, hcount] at h
  by_cases hthread : 0 < s.threads.countP (Thread.live name)
  · obtain ⟨t, ht, hlive⟩ := List.countP_pos_iff.1 hthread
    exact Or.inl ⟨t, ht, by simpa [Thread.live] using hlive⟩
  · by_cases hchannel : 0 < s.channel.count name
    · exact Or.inr (Or.inl (List.count_pos_iff.1 hchannel))
    · have hmem := List.count_pos_iff.1 (show 0 < s.control.rebuilding.toList.count name by omega)
      exact Or.inr (Or.inr (by simpa using hmem))

theorem tokens_of_attended (builders : WorkerBuilders) {name : WorkerName}
    (h : Attended s name) : 0 < tokens builders s name := by
  unfold tokens outside
  rcases h with ⟨t, ht, hlive⟩ | hchannel | hbuild
  · have := List.countP_pos_iff.2 ⟨t, ht, show Thread.live name t = true by
      simpa [Thread.live] using hlive⟩
    omega
  · have := List.count_pos_iff.2 hchannel
    omega
  · have : 0 < (s.control.holding builders).count name := by
      rw [List.count_pos_iff, holding_eq, hbuild]
      simp
    omega

/-! ### What the building blocks of a step do to the count -/

theorem tokens_goto (c : Control) (name : WorkerName) :
    tokens builders (s.goto c) name = outside s name + (c.holding builders).count name := rfl

theorem tokens_of_control {c : Control} (hc : s.control = c) (name : WorkerName) :
    tokens builders s name = outside s name + (c.holding builders).count name := by
  rw [tokens, hc]

@[simp] theorem outside_activate (n : WorkerName) (i : ℕ) (name : WorkerName) :
    outside (s.activate n i) name = outside s name := rfl

@[simp] theorem outside_spawnWorker (n name : WorkerName) :
    outside (s.spawnWorker n) name = outside s name + (if n = name then 1 else 0) := by
  simp only [outside, State.spawnWorker, List.countP_append, List.countP_singleton, Thread.live]
  simp [Stage.passed]
  omega

theorem send_control (n : WorkerName) : (s.send n).control = s.control := by
  unfold State.send
  split_ifs <;> rfl

theorem send_cancelled (n : WorkerName) : (s.send n).cancelled = s.cancelled := by
  unfold State.send
  split_ifs <;> rfl

theorem outside_send (n name : WorkerName) :
    outside (s.send n) name =
      outside s name + (if s.control.receiving ∧ n = name then 1 else 0) := by
  unfold outside State.send
  by_cases hr : s.control.receiving
  · simp only [hr, if_true, true_and, List.count_append, List.count_singleton, beq_iff_eq]
    omega
  · simp [hr]

/-- A thread counts as one token of its name until it has passed its final reporting step. -/
theorem outside_setStage {i : ℕ} {t : Thread} (stage : Stage) (h : s.threads[i]? = some t)
    (name : WorkerName) :
    outside (s.setStage i t stage) name + (if Thread.live name t then 1 else 0) =
      outside s name + (if Thread.live name { t with stage := stage } then 1 else 0) := by
  obtain ⟨hi, rfl⟩ := List.getElem?_eq_some_iff.1 h
  have hle := List.boole_getElem_le_countP (p := Thread.live name) hi
  simp only [outside, State.setStage]
  rw [List.countP_set hi]
  omega

/-! ### The count over one step -/

/-- The tokens of a name do not become more; they stay the same unless the cancellation has come
or the supervisor panics. -/
def TokensKept (builders : WorkerBuilders) (s s' : State) (name : WorkerName) : Prop :=
  tokens builders s' name ≤ tokens builders s name ∧
    (s.cancelled = false → s'.control ≠ .panicked →
      tokens builders s' name = tokens builders s name)

theorem TokensKept.of_eq {name : WorkerName}
    (h : tokens builders s' name = tokens builders s name) : TokensKept builders s s' name :=
  ⟨h.le, fun _ _ => h⟩

/-- A step of the supervisor thread keeps the tokens, except when it drops a report after the
cancellation or finds no builder for it. -/
theorem tokens_supervise {a : Action} (hs : supervise builders s a = some s')
    (name : WorkerName) : TokensKept builders s s' name := by
  have hdrop : ∀ {n : WorkerName} {c : Control}, s.control = .received n →
      c.holding builders = [] →
        tokens builders (s.goto c) name ≤ tokens builders s name := by
    intro n c hc hnil
    rw [tokens_goto, tokens_of_control hc, hnil]
    exact Nat.add_le_add_left (by simp) _
  cases supervises_of_supervise hs with
  | drops n hc hcan => exact ⟨hdrop hc rfl, fun h => by simp [hcan] at h⟩
  | panics n hc hname => exact ⟨hdrop hc rfl, fun _ h => absurd rfl h⟩
  | ticks hc hcan => exact .of_eq rfl
  | receives n rest hc hch =>
    apply TokensKept.of_eq
    rw [tokens_goto, tokens_of_control hc]
    simp only [outside, hch, Control.holding, List.count_cons, List.count_nil]
    omega
  | startupBuilt n rest hc =>
    -- the name goes from the supervisor to a thread
    apply TokensKept.of_eq
    rw [tokens_goto, tokens_of_control hc]
    simp only [outside_activate, outside_spawnWorker, Control.holding, List.count_cons, beq_iff_eq]
    omega
  | rebuilt n hc hold | replaced n old hc hold =>
    apply TokensKept.of_eq
    rw [tokens_goto, tokens_of_control hc]
    simp [Control.holding, List.count_singleton]
  | startupFails n rest hc =>
    -- the name goes from the supervisor to the channel
    apply TokensKept.of_eq
    rw [tokens_goto, tokens_of_control hc, outside_send, hc]
    simp only [Control.holding, Control.receiving, List.count_cons, beq_iff_eq, true_and]
    omega
  | rebuildFails n hc =>
    apply TokensKept.of_eq
    rw [tokens_goto, tokens_of_control hc, outside_send, hc]
    simp [Control.holding, Control.receiving, List.count_singleton]
  | bootFails hc | boots hc | startupNext n rest hc | startupOver hc | seesCancel hc hcan
  | rebuilds n hc hcan hname | joins n old new hc hover | stops hc =>
    apply TokensKept.of_eq
    rw [tokens_goto, tokens_of_control hc]
    rfl

/-- A thread that moves on, before or after its final reporting step, keeps its token. -/
theorem tokens_setStage (builders : WorkerBuilders) {i : ℕ} {t : Thread} {stage : Stage}
    (h : s.threads[i]? = some t) (hstage : stage.passed = t.stage.passed) (name : WorkerName) :
    tokens builders (s.setStage i t stage) name = tokens builders s name := by
  have hset := outside_setStage stage h name
  have hlive : Thread.live name { t with stage := stage } = Thread.live name t := by
    simp [Thread.live, hstage]
  rw [hlive] at hset
  have : (s.setStage i t stage).control = s.control := rfl
  simp only [tokens, this]
  omega

/-- A thread that passes its final reporting step gives its token up. -/
theorem tokens_setStage_passed (builders : WorkerBuilders) {i : ℕ} {t : Thread} (stage : Stage)
    (h : s.threads[i]? = some t) (ht : t.stage.passed = false) (hstage : stage.passed = true)
    (name : WorkerName) :
    tokens builders (s.setStage i t stage) name + (if t.name = name then 1 else 0) =
      tokens builders s name := by
  have hset := outside_setStage stage h name
  have hlive : Thread.live name t = decide (t.name = name) := by simp [Thread.live, ht]
  have hpassed : Thread.live name { t with stage := stage } = false := by
    simp [Thread.live, hstage]
  rw [hlive, hpassed] at hset
  have : (s.setStage i t stage).control = s.control := rfl
  simp only [tokens, this]
  simp only [decide_eq_true_eq, Bool.false_eq_true, if_false] at hset
  omega

/-- A thread that reports hands its token to the channel, if the receiver is there. -/
theorem tokens_report (builders : WorkerBuilders) {i : ℕ} {t : Thread}
    (h : s.threads[i]? = some t) (ht : t.stage.passed = false) (name : WorkerName) :
    tokens builders ((s.setStage i t .leaving).send t.name) name ≤ tokens builders s name ∧
      (s.control.receiving = true →
        tokens builders ((s.setStage i t .leaving).send t.name) name = tokens builders s name) := by
  have hpassed := tokens_setStage_passed builders .leaving h ht rfl name
  have hctl : (s.setStage i t .leaving).control = s.control := rfl
  simp only [tokens, hctl, send_control, outside_send] at hpassed ⊢
  by_cases hr : s.control.receiving
  · simp only [hr, true_and] at hpassed ⊢
    split_ifs at hpassed ⊢ <;> omega
  · simp only [hr, Bool.false_eq_true, false_and, if_false, false_implies, and_true]
    omega

/-! ### The steps of a worker thread -/

/-- A thread moves on, passes its final reporting step with a report, or passes it without one:
because its check found the token not cancelled, or because the receiver is gone. -/
theorem runThread_cases {a : Action} (hs : runThread s a = some s') :
    (∃ i t stage, s.threads[i]? = some t ∧ stage.passed = t.stage.passed ∧ t.stage.over = false ∧
      s' = s.setStage i t stage) ∨
    (∃ i t, s.threads[i]? = some t ∧ t.stage.passed = false ∧
      s' = (s.setStage i t .leaving).send t.name) ∨
    (∃ i t stage, s.threads[i]? = some t ∧ t.stage.passed = false ∧ stage.passed = true ∧
      (RestartedStep s a → s.control.receiving = false) ∧ s' = s.setStage i t stage) := by
  cases runsThread_of_runThread hs with
  | starts i name ht | startFails i name ht | works i name ht | workFails i name result hne ht
  | observes i name ht hcan | checks i name ht hcan | exits i name ht =>
    refine Or.inl ⟨i, _, _, ht, ?_, ?_, rfl⟩ <;> rfl
  | reportsFailure i name ht hrec | reports i name ht => exact Or.inr (Or.inl ⟨i, _, ht, rfl, rfl⟩)
  | leaves i name ht hcan =>
    refine Or.inr (Or.inr ⟨i, _, _, ht, rfl, rfl, fun hok => ?_, rfl⟩)
    rw [RestartedStep, hcan] at hok
    cases hok
  | panics i name ht hrec => exact Or.inr (Or.inr ⟨i, _, _, ht, rfl, rfl, fun _ => hrec, rfl⟩)

theorem runThread_frame {a : Action} (hs : runThread s a = some s') :
    s'.control = s.control ∧ s'.cancelled = s.cancelled ∧ s.threads ≠ [] := by
  have hne : ∀ {i : ℕ} {t : Thread}, s.threads[i]? = some t → s.threads ≠ [] := by
    intro i t ht hnil
    simp [hnil] at ht
  rcases runThread_cases hs with ⟨i, t, stage, ht, -, -, rfl⟩ | ⟨i, t, ht, -, rfl⟩ |
    ⟨i, t, stage, ht, -, -, -, rfl⟩
  · exact ⟨rfl, rfl, hne ht⟩
  · exact ⟨send_control _, send_cancelled _, hne ht⟩
  · exact ⟨rfl, rfl, hne ht⟩

/-- One step is the cancellation, a step of the supervisor, or a step of a thread. -/
theorem step_cases {a : Action} (hs : step builders s a = some s') :
    s' = { s with cancelled := true } ∨ supervise builders s a = some s' ∨
      runThread s a = some s' := by
  cases a <;> simp only [step] at hs
  case cancel =>
    cases hs
    exact Or.inl rfl
  all_goals first
    | exact Or.inr (Or.inl hs)
    | exact Or.inr (Or.inr hs)

/-! ### The invariant of all runs -/

structure Inv (builders : WorkerBuilders) (s : State) : Prop where
  /-- A name is held at most as often as it is configured. -/
  tokens_le : ∀ name, tokens builders s name ≤ builders.names.count name
  /-- Before the cancellation a thread's report gets through. -/
  receiving : s.cancelled = false → s.control.receiving = true ∨ s.threads = []
  shutdown : s.control = .shuttingDown → s.cancelled = true
  booting : s.control = .booting → s.threads = []
  noPanic : s.control ≠ .panicked

theorem inv_init : Inv builders init where
  tokens_le name := by simp [tokens, outside, init, Control.holding]
  receiving _ := Or.inl rfl
  shutdown h := by cases h
  booting _ := rfl
  noPanic h := by cases h

/-- The supervisor finds the builder of every name it receives. -/
theorem mem_names_of_received {name : WorkerName} (h : Inv builders s)
    (hc : s.control = .received name) : name ∈ builders.names := by
  have hle := h.tokens_le name
  rw [tokens_of_control hc] at hle
  refine List.count_pos_iff.1 (lt_of_lt_of_le ?_ hle)
  simp [Control.holding]

/-- What a step of the supervisor thread leaves alone, and where it can end. -/
theorem supervise_frame {a : Action} (h : Inv builders s)
    (hs : supervise builders s a = some s') :
    s'.cancelled = s.cancelled ∧
      (s.cancelled = false → s'.control.receiving = true ∨ s'.threads = []) ∧
      (s'.control = .shuttingDown → s'.cancelled = true) ∧ s'.control ≠ .booting ∧
      s'.control ≠ .panicked := by
  cases supervises_of_supervise hs with
  | bootFails hc =>
    exact ⟨rfl, fun _ => Or.inr (h.booting hc), fun hno => (by cases hno), by simp [State.goto],
      by simp [State.goto]⟩
  | panics name hc hname => exact absurd (mem_names_of_received h hc) hname
  | ticks hc hcan => simp [hc, Control.receiving]
  | stops hc => simp [State.goto, h.shutdown hc]
  | startupFails name rest hc | rebuildFails name hc =>
    simp [State.goto, Control.receiving, send_cancelled]
  | seesCancel hc hcan => simp [State.goto, Control.receiving, hcan]
  | boots | startupNext | startupOver | startupBuilt | replaced | rebuilt | receives | drops
  | rebuilds | joins =>
    simp [State.goto, State.activate, State.spawnWorker, Control.receiving]

/-- A step of a thread never adds a token; it takes one only at an uncancelled check, or by a
report that finds no receiver. -/
theorem tokens_runThread {a : Action} (hs : runThread s a = some s') (name : WorkerName) :
    tokens builders s' name ≤ tokens builders s name ∧
      (s.control.receiving = true → RestartedStep s a →
        tokens builders s' name = tokens builders s name) := by
  rcases runThread_cases hs with ⟨i, t, stage, ht, hstage, -, rfl⟩ |
    ⟨i, t, ht, hlive, rfl⟩ | ⟨i, t, stage, ht, hlive, hpassed, hno, rfl⟩
  · have heq := tokens_setStage builders ht hstage name
    exact ⟨heq.le, fun _ _ => heq⟩
  · have hrep := tokens_report builders ht hlive name
    exact ⟨hrep.1, fun hr _ => hrep.2 hr⟩
  · have hgone := tokens_setStage_passed builders stage ht hlive hpassed name
    refine ⟨by omega, fun hrec hok => ?_⟩
    rw [hno hok] at hrec
    cases hrec

theorem tokens_step_le {a : Action} (hs : step builders s a = some s') (name : WorkerName) :
    tokens builders s' name ≤ tokens builders s name := by
  rcases step_cases hs with rfl | hs | hs
  · exact le_rfl
  · exact (tokens_supervise hs name).1
  · exact (tokens_runThread hs name).1

theorem inv_step {a : Action} (h : Inv builders s) (hs : step builders s a = some s') :
    Inv builders s' := by
  have hle : ∀ name, tokens builders s' name ≤ builders.names.count name :=
    fun name => (tokens_step_le hs name).trans (h.tokens_le name)
  rcases step_cases hs with rfl | hs | hs
  · refine ⟨hle, ?_, fun _ => rfl, h.booting, h.noPanic⟩
    intro hcan
    cases hcan
  · obtain ⟨hcan, hrec, hshut, hboot, hpanic⟩ := supervise_frame h hs
    exact ⟨hle, fun hno => hrec (hcan ▸ hno), hshut, fun hc => absurd hc hboot, hpanic⟩
  · obtain ⟨hctl, hcan, hne⟩ := runThread_frame hs
    have hrec : s.cancelled = false → s.control.receiving = true :=
      fun hno => (h.receiving hno).resolve_right hne
    refine ⟨hle, fun hno => Or.inl ?_, fun hc => ?_, fun hc => ?_, ?_⟩
    · rw [hctl]
      exact hrec (hcan ▸ hno)
    · rw [hcan]
      exact h.shutdown (hctl ▸ hc)
    · exact absurd (h.booting (hctl ▸ hc)) hne
    · rw [hctl]
      exact h.noPanic

theorem inv_of_reach (h : Reach (ofFn (step builders)) init s) : Inv builders s :=
  h.invariant inv_init fun _ _ _ => inv_step

/-! ### No worker is lost, unless a thread ends before the cancellation -/

theorem tokens_step_eq {a : Action} (h : Inv builders s) (hok : RestartedStep s a)
    (hs : step builders s a = some s') (hcan : s'.cancelled = false) (name : WorkerName) :
    s.cancelled = false ∧ tokens builders s' name = tokens builders s name := by
  have h' := inv_step h hs
  rcases step_cases hs with rfl | hs | hs
  · cases hcan
  · have hc := (supervise_frame h hs).1
    rw [hc] at hcan
    exact ⟨hcan, (tokens_supervise hs name).2 hcan h'.noPanic⟩
  · obtain ⟨-, hc, hne⟩ := runThread_frame hs
    rw [hc] at hcan
    have hrec := (h.receiving hcan).resolve_right hne
    exact ⟨hcan, (tokens_runThread hs name).2 hrec hok⟩

/-- Before the cancellation, the runs whose threads are all restarted keep every token. -/
theorem tokens_eq_of_reach (h : Reach (when (ofFn (step builders)) RestartedStep) init s)
    (hcan : s.cancelled = false) (name : WorkerName) :
    tokens builders s name = builders.names.count name := by
  induction h with
  | refl => simp [tokens, outside, init, Control.holding]
  | tail hr hs ih =>
    obtain ⟨hbefore, heq⟩ := tokens_step_eq (inv_of_reach hr.of_when) hs.1 hs.2 hcan name
    rw [heq, ih hbefore]

theorem noneLost_of_reach (h : Reach (when (ofFn (step builders)) RestartedStep) init s) :
    NoneLost builders s := by
  intro hcan name hname hreached
  refine attended_of_tokens ?_ hreached
  rw [tokens_eq_of_reach h hcan]
  exact List.count_pos_iff.2 hname

/-- Before the cancellation the check of a thread that has exited lets it leave without a report. -/
theorem check_uncancelled {i : ℕ} (hs : step builders s (.check i) = some s')
    (hcan : s.cancelled = false) :
    ∃ t, s.threads[i]? = some t ∧ t.stage.passed = false ∧ s' = s.setStage i t .leaving := by
  have hrun : runThread s (.check i) = some s' := hs
  cases runsThread_of_runThread hrun with
  | checks i name ht hcancelled => simp [hcan] at hcancelled
  | leaves i name ht => exact ⟨_, ht, rfl, rfl⟩

/-- A thread whose check finds the token not cancelled takes the last token of its name. -/
theorem not_noneLost_of_check {a : Action} (h : Inv builders s) (hok : ¬ RestartedStep s a)
    (hs : step builders s a = some s') : ¬ NoneLost builders s' := by
  obtain ⟨i, rfl⟩ : ∃ i, a = .check i := by
    cases a <;> simp [RestartedStep] at hok ⊢
  have hcan : s.cancelled = false := by simpa [RestartedStep] using hok
  obtain ⟨t, ht, hlive, rfl⟩ := check_uncancelled hs hcan
  have hgone := tokens_setStage_passed builders .leaving ht hlive rfl t.name
  have hle := h.tokens_le t.name
  have hone := List.nodup_iff_count_le_one.1 builders.nodup t.name
  rw [if_pos rfl] at hgone
  intro hnone
  have hzero : tokens builders (s.setStage i t .leaving) t.name = 0 := by omega
  have hname : t.name ∈ builders.names := List.count_pos_iff.1 (by omega)
  have hreached : t.name ∉ (s.setStage i t .leaving).control.unreached builders := by
    intro hun
    have : 0 < ((s.setStage i t .leaving).control.holding builders).count t.name := by
      rw [List.count_pos_iff, holding_eq]
      exact List.mem_append_right _ hun
    rw [tokens] at hzero
    omega
  have hpos := tokens_of_attended builders (hnone hcan t.name hname hreached)
  omega

/-- **The supervisor loses no worker exactly when no worker thread ends before the
cancellation.** A run keeps every worker attended to in all its states, if and only if every
worker thread that is done working finds the token cancelled. -/
theorem supervisor_loses_none_iff {tr : List (State × Action)}
    (h : Run (ofFn (step builders)) init tr s) :
    (∀ t ∈ visited tr s, NoneLost builders t) ↔ ∀ p ∈ tr, RestartedStep p.1 p.2 :=
  h.forall_visited_iff (noneLost_of_reach .refl) (fun _ => noneLost_of_reach)
    fun _ _ _ hr hok hs => not_noneLost_of_check (inv_of_reach hr.of_when) hok hs

/-! ### A worker that crashes before the cancellation -/

def subscriberOnly : WorkerBuilders := ⟨["subscriber"], by simp⟩

/-- The subscriber is built and starts working. -/
def startUp : List Action := [.boot true, .next, .built true, .next, .runtime 0 true]

theorem supervisor_drops_crashed_worker :
    ∃ s, Reach (ofFn (step subscriberOnly)) init s ∧ ¬ NoneLost subscriberOnly s := by
  obtain ⟨s, hs, hp⟩ := exists_reach_of_exec (step subscriberOnly) init
    (startUp ++ [.work 0 .err, .check 0])
    (fun s => !s.cancelled && s.control == .selecting && s.channel.isEmpty &&
      s.threads == [⟨"subscriber", .leaving⟩]) (by decide)
  refine ⟨s, hs, fun hn => ?_⟩
  simp only [Bool.and_eq_true, Bool.not_eq_true', beq_iff_eq, List.isEmpty_iff] at hp
  obtain ⟨⟨⟨hcan, hctl⟩, hch⟩, hth⟩ := hp
  have hatt := hn hcan "subscriber" (by simp [subscriberOnly]) (by simp [hctl, Control.unreached])
  simp [Attended, hctl, hch, hth, Control.rebuilding, Stage.passed] at hatt

/-- The theorem on a run whose worker fails after the cancellation. -/
theorem supervisor_loses_none_cancelled :
    ∃ tr s, tr.map Prod.snd = [.report 0, .check 0, .work 0 .err, .cancel] ++ startUp.reverse ∧
      ∀ t ∈ visited tr s, NoneLost subscriberOnly t := by
  obtain ⟨tr, s, hr, hok, htr⟩ := exists_run_of_exec (step subscriberOnly) RestartedStep init
    (startUp ++ [.cancel, .work 0 .err, .check 0, .report 0]) (by decide)
  exact ⟨tr, s, htr, (supervisor_loses_none_iff hr).2 hok⟩

end Supervisor
end RelayerCore
