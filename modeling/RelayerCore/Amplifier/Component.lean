import RelayerCore.Amplifier.Healthcheck
import RelayerCore.FromAmplifier.Skip
import RelayerCore.Lib.TaskSet
import RelayerCore.ToAmplifier.Close

/-!
# The Amplifier component (`relayer-amplifier-api-integration/src/component.rs`)

`process_internal` sets itself up and then races its three subprocesses: the health check, the
publishing of commands and the polling of tasks.  The first one that returns ends the component and
drops the other two, and with them the tasks they have spawned are aborted.  The same happens when
the future of the component is dropped before it has returned, by a panic or by an abort.

The clients that send commands, the consumer of the tasks, the API and the spawned tasks that are
not dropped yet take their steps also when the component is gone.  A spawned task of the polling
half that was dropped just takes no step any more.
-/

namespace RelayerCore
namespace Amplifier

open Machine TaskSet

/-- The errors of `process_internal`. -/
inductive ProcessError
  /-- "identity cert+key not set" -/
  | identityNotSet
  | client (err : AmplifierApiError)
  /-- "could not spawn clock upkeep thread" -/
  | clock
  | healthcheck (err : Healthcheck.HealthcheckError)
  /-- "fatal error when processing messages from amplifier" -/
  | toAmplifier
  /-- the latest queried task could not be set -/
  | fromAmplifier
  /-- "listener crashed" -/
  | listenerCrashed
  deriving DecidableEq

/-- The part of `Config` the subprocesses use; `identity` tells whether it is set. -/
structure Config where
  identity : Bool
  chain : String
  getChainsLimit : UInt8
  invalidHealthchecksBeforeShutdown : UInt64

inductive Phase
  | starting
  | racing
  | exited (result : Except ProcessError Unit)
  /-- dropped before it has returned -/
  | dropped
  deriving DecidableEq

structure State where
  phase : Phase
  healthcheckCurrentFailures : ℕ
  toAmplifier : ToAmplifier.State
  fromAmplifier : FromAmplifier.State

/-- `Amplifier::new`, over the listing of the API and the `State` that earlier processes left. -/
def new (past : FromAmplifier.State) : State :=
  { phase := .starting
    healthcheckCurrentFailures := 0
    toAmplifier := ToAmplifier.init
    fromAmplifier := past.crash }

inductive Action
  | setUp (client : Except AmplifierApiError Unit) (clock : Bool)
  | healthcheck (exchange : Exchange)
  | toAmplifier (a : ToAmplifier.Action)
  | fromAmplifier (a : FromAmplifier.Action)

/-- `process_internal` up to the race: `client` and `clock` tell whether the client and the clock
could be made. -/
def setUp (config : Config) (client : Except AmplifierApiError Unit) (clock : Bool) : Phase :=
  if config.identity then
    match client with
    | .error err => .exited (.error (.client err))
    | .ok () => if clock then .racing else .exited (.error .clock)
  else .exited (.error .identityNotSet)

/-- `process_internal` after the race. -/
def raced (result : Except ProcessError Unit) : Except ProcessError Unit := do
  result
  throw .listenerCrashed

/-- A subprocess has returned: the others are dropped. -/
def State.endRace (s : State) (result : Except ProcessError Unit) : State :=
  { s with phase := .exited (raced result), toAmplifier := s.toAmplifier.abortAll }

/-- The future is dropped before it has returned, with the receiver of the commands and the tasks of
the subprocesses. -/
def State.drop (s : State) : State :=
  match s.phase with
  | .exited _ => s
  | _ => { s with phase := .dropped, toAmplifier := s.toAmplifier.abortAll }

def Phase.isExited : Phase → Bool
  | .exited _ => true
  | _ => false

/-- The future is not there any more. -/
def Phase.isGone : Phase → Bool
  | .exited _ | .dropped => true
  | _ => false

/-- The publishing half takes its own steps in the race; its receiver is there until the end. -/
def toAmplifierAllowed (phase : Phase) : ToAmplifier.Action → Bool
  | .poll | .joinNext _ => phase = .racing
  | .send _ => !phase.isGone
  | .close | .execute .. | .cancel _ => true

/-- The polling half takes its own steps in the race; a crash is not a step of the component. -/
def fromAmplifierAllowed (phase : Phase) : FromAmplifier.Action → Bool
  | .start _ | .tick | .readProcessed | .readQueried _ => phase = .racing
  | .crash => false
  | _ => true

/-- A step of the publishing half; the component ends with it. -/
def State.publish (s : State) (t : ToAmplifier.State) : State :=
  if s.phase = .racing ∧ t.phase = .ended then
    { s with toAmplifier := t }.endRace (.error .toAmplifier)
  else { s with toAmplifier := t }

/-- A step of the polling half, which does not get to its loop if the first setter fails. -/
def State.listen (s : State) (a : FromAmplifier.Action) (f : FromAmplifier.State) : State :=
  match a with
  | .start _ =>
    if f.running then { s with fromAmplifier := f }
    else { s with fromAmplifier := f }.endRace (.error .fromAmplifier)
  | _ => { s with fromAmplifier := f }

def step (config : Config) (client : ToAmplifier.AmplifierApiClient) (s : State) :
    Action → Option State
  | .setUp made clock =>
    if s.phase = .starting then some { s with phase := setUp config made clock } else none
  | .healthcheck exchange =>
    if s.phase = .racing then
      match Healthcheck.tick config.invalidHealthchecksBeforeShutdown
          s.healthcheckCurrentFailures exchange with
      | .ok failures => some { s with healthcheckCurrentFailures := failures }
      | .error err => some (s.endRace (.error (.healthcheck err)))
    else none
  | .toAmplifier a =>
    if toAmplifierAllowed s.phase a then
      (ToAmplifier.step client config.chain s.toAmplifier a).map s.publish
    else none
  | .fromAmplifier a =>
    if fromAmplifierAllowed s.phase a then
      (FromAmplifier.step config.getChainsLimit s.fromAmplifier a).map (s.listen a)
    else none

/-- The steps that need the future of the component. -/
def Action.own : Action → Bool
  | .setUp .. | .healthcheck _ => true
  | .toAmplifier a => !toAmplifierAllowed (.exited (.ok ())) a
  | .fromAmplifier a => !fromAmplifierAllowed (.exited (.ok ())) a

/-! ### What a step can do -/

variable {config : Config} {client : ToAmplifier.AmplifierApiClient} {s s' : State} {a : Action}

/-- The steps, case by case. -/
inductive Moves (config : Config) (client : ToAmplifier.AmplifierApiClient) (s : State) :
    State → Prop
  | setUp (phase : Phase) (hphase : s.phase = .starting)
      (hmade : phase = .racing ∨ ∃ err, phase = .exited (.error err)) :
      Moves config client s { s with phase }
  | healthcheck (failures : ℕ) (hphase : s.phase = .racing) :
      Moves config client s { s with healthcheckCurrentFailures := failures }
  | unhealthy (err : Healthcheck.HealthcheckError) (hphase : s.phase = .racing) :
      Moves config client s (s.endRace (.error (.healthcheck err)))
  | publish (a : ToAmplifier.Action) (t : ToAmplifier.State)
      (hallowed : toAmplifierAllowed s.phase a = true)
      (ht : ToAmplifier.step client config.chain s.toAmplifier a = some t)
      (hon : ¬(s.phase = .racing ∧ t.phase = .ended)) :
      Moves config client s { s with toAmplifier := t }
  | published (a : ToAmplifier.Action) (t : ToAmplifier.State) (hphase : s.phase = .racing)
      (ht : ToAmplifier.step client config.chain s.toAmplifier a = some t)
      (hended : t.phase = .ended) :
      Moves config client s ({ s with toAmplifier := t }.endRace (.error .toAmplifier))
  | listen (a : FromAmplifier.Action) (f : FromAmplifier.State)
      (hf : FromAmplifier.step config.getChainsLimit s.fromAmplifier a = some f) :
      Moves config client s { s with fromAmplifier := f }
  | notStarted (a : FromAmplifier.Action) (f : FromAmplifier.State) (hphase : s.phase = .racing)
      (hf : FromAmplifier.step config.getChainsLimit s.fromAmplifier a = some f) :
      Moves config client s ({ s with fromAmplifier := f }.endRace (.error .fromAmplifier))

theorem setUp_cases (made : Except AmplifierApiError Unit) (clock : Bool) :
    setUp config made clock = .racing ∨ ∃ err, setUp config made clock = .exited (.error err) := by
  unfold setUp
  cases made <;> split_ifs <;> simp

theorem moves_of_step (hs : step config client s a = some s') : Moves config client s s' := by
  cases a with
  | setUp made clock =>
    obtain ⟨hphase, hs⟩ := Option.ite_none_right_eq_some.1 hs
    cases hs
    exact .setUp _ hphase (setUp_cases made clock)
  | healthcheck exchange =>
    obtain ⟨hphase, hs⟩ := Option.ite_none_right_eq_some.1 hs
    split at hs <;> cases hs
    · exact .healthcheck _ hphase
    · exact .unhealthy _ hphase
  | toAmplifier a =>
    obtain ⟨hallowed, hs⟩ := Option.ite_none_right_eq_some.1 hs
    obtain ⟨t, ht, rfl⟩ := Option.map_eq_some_iff.1 hs
    unfold State.publish
    split_ifs with h
    · exact .published a t h.1 ht h.2
    · exact .publish a t hallowed ht h
  | fromAmplifier a =>
    obtain ⟨hallowed, hs⟩ := Option.ite_none_right_eq_some.1 hs
    obtain ⟨f, hf, rfl⟩ := Option.map_eq_some_iff.1 hs
    unfold State.listen
    split
    · have hphase : s.phase = .racing := of_decide_eq_true hallowed
      split_ifs
      · exact .listen _ f hf
      · exact .notStarted _ f hphase hf
    · exact .listen a f hf

/-- A component that has returned keeps its result. -/
theorem exited_step {result : Except ProcessError Unit} (h : s.phase = .exited result)
    (hs : step config client s a = some s') : s'.phase = .exited result := by
  cases moves_of_step hs with
  | setUp phase hphase => rw [h] at hphase; cases hphase
  | healthcheck failures hphase => rw [h] at hphase; cases hphase
  | unhealthy err hphase => rw [h] at hphase; cases hphase
  | publish a t hallowed ht hon => exact h
  | published a t hphase => rw [h] at hphase; cases hphase
  | listen a f hf => exact h
  | notStarted a f hphase => rw [h] at hphase; cases hphase

/-- The future of `process`. -/
def State.result (s : State) : Option Bool :=
  match s.phase with
  | .exited result => some result.toBool
  | _ => none

theorem result_eq_some {ok : Bool} :
    s.result = some ok ↔ ∃ result, s.phase = .exited result ∧ result.toBool = ok := by
  unfold State.result
  cases s.phase <;> simp

/-- `process`, as a future to be spawned. -/
def process (config : Config) (client : ToAmplifier.AmplifierApiClient)
    (past : FromAmplifier.State) : Process where
  State := State
  Action := Action
  init := new past
  step := step config client
  own := Action.own
  result := State.result
  drop := State.drop
  final hr hs := by
    obtain ⟨result, hphase, hok⟩ := result_eq_some.1 hr
    exact result_eq_some.2 ⟨result, exited_step hphase hs, hok⟩

/-! ### How the component ends -/

/-- The component has not returned `Ok`. -/
def NeverOk (s : State) : Prop := s.phase ≠ .exited (.ok ())

theorem neverOk_step (h : NeverOk s) (hs : step config client s a = some s') : NeverOk s' := by
  cases moves_of_step hs with
  | setUp phase _ hmade =>
    intro hok
    rcases hmade with hracing | ⟨err, herr⟩
    · rw [hracing] at hok
      cases hok
    · rw [herr] at hok
      cases hok
  | healthcheck failures hphase => exact h
  | publish a t hallowed ht hon => exact h
  | listen a f hf => exact h
  | unhealthy err | published a t | notStarted a f =>
    intro hok
    cases hok

/-- A drop leaves a future that has returned as it is. -/
theorem drop_eq (s : State) : s.drop = s ∧ s.phase.isExited = true ∨
    s.drop = { s with phase := .dropped, toAmplifier := s.toAmplifier.abortAll } := by
  unfold State.drop
  split
  · rename_i result hphase
    exact Or.inl ⟨rfl, by rw [hphase]; rfl⟩
  · exact Or.inr rfl

theorem neverOk_drop (h : NeverOk s) : NeverOk s.drop := by
  rcases drop_eq s with ⟨heq, -⟩ | heq <;> rw [heq]
  · exact h
  · intro hok
    cases hok

theorem neverOk_of_lives {past : FromAmplifier.State} {dropped : Bool}
    (h : (process config client past).Lives dropped s) : NeverOk s :=
  h.invariant (P := NeverOk) (by simp [NeverOk, process, new]) (fun _ _ _ => neverOk_step)
    fun _ => neverOk_drop

/-- On its own the component is never dropped. -/
theorem phase_of_reach {past : FromAmplifier.State}
    (h : Reach (ofFn (step config client)) (new past) s) : s.phase ≠ .dropped := by
  refine h.invariant (p := fun s => s.phase ≠ .dropped) (by simp [new]) fun s a s' hno hs => ?_
  cases moves_of_step hs with
  | setUp phase _ hmade =>
    rcases hmade with hracing | ⟨err, herr⟩
    · simp [hracing]
    · simp [herr]
  | healthcheck | publish | listen => exact hno
  | unhealthy | published | notStarted => simp [State.endRace]

theorem result_of_neverOk (h : NeverOk s) : s.result ≠ some true := by
  intro hr
  obtain ⟨result, hphase, hok⟩ := result_eq_some.1 hr
  cases result with
  | error err => cases hok
  | ok u => exact h hphase

/-- A component that has returned has returned an error. -/
theorem result_of_exited (h : NeverOk s) (he : s.phase.isExited = true) :
    s.result = some false := by
  cases hr : s.result with
  | none =>
    unfold State.result at hr
    cases hphase : s.phase <;> simp [hphase, Phase.isExited] at hr he
  | some ok =>
    cases ok with
    | true => exact absurd hr (result_of_neverOk h)
    | false => rfl

/-! ### The commands -/

section Commands

variable {chain : String} {X : Prop} {t t' : ToAmplifier.State}

open ToAmplifier (Job Progress internal)

/-- The accounts of the publishing half, which may give commands up when `X` holds. -/
structure Kept (client : ToAmplifier.AmplifierApiClient) (chain : String) (X : Prop)
    (t : ToAmplifier.State) : Prop where
  received : t.jobs.map Job.command ++ t.queue = t.sent
  request : ∀ job ∈ t.jobs, job.progress.request = client.requestOf chain job.command
  drained : t.terminated = true → t.senders = false ∧ t.queue = []
  givenUp : ∀ job ∈ t.jobs, ∀ request,
    job.progress = .running request true ∨ job.progress = .cancelled request →
      X ∨ t.terminated = true

theorem kept_init : Kept client chain X ToAmplifier.init :=
  ⟨rfl, by simp [ToAmplifier.init], by simp [ToAmplifier.init], by simp [ToAmplifier.init]⟩

theorem Kept.mono {Y : Prop} (h : Kept client chain X t) (hXY : X → Y) : Kept client chain Y t :=
  ⟨h.received, h.request, h.drained,
    fun job hjob request hgone => (h.givenUp job hjob request hgone).imp_left hXY⟩

/-- One job changes, and nothing else. -/
theorem Kept.setJob (h : Kept client chain X t) {i : ℕ} {job : Job} (job' : Job)
    (hi : t.jobs[i]? = some job) (hcommand : job'.command = job.command)
    (hrequest : job'.progress.request = job.progress.request)
    (hgone : ∀ request, job'.progress = .running request true ∨
      job'.progress = .cancelled request → job.progress = .running request true ∨
      job.progress = .cancelled request) : Kept client chain X (t.setJob i job') := by
  have hmem : job ∈ t.jobs := List.mem_of_getElem? hi
  refine ⟨?_, fun k hk => ?_, h.drained, fun k hk request hrun => ?_⟩
  · rw [ToAmplifier.command_setJob hi hcommand]
    exact h.received
  · rcases List.mem_or_eq_of_mem_set hk with hk | rfl
    · exact h.request k hk
    · rw [hrequest, hcommand]
      exact h.request job hmem
  · rcases List.mem_or_eq_of_mem_set hk with hk | rfl
    · exact h.givenUp k hk request hrun
    · exact h.givenUp job hmem request (hgone request hrun)

/-- An abort gives up every task that is still running. -/
theorem Kept.abortAll (h : Kept client chain X t) (hdrained : t.terminated = true →
    t.senders = false ∧ t.queue = []) : Kept client chain True t.abortAll := by
  refine ⟨?_, fun job hjob => ?_, hdrained, fun _ _ _ _ => Or.inl trivial⟩
  · show (t.jobs.map fun job => { job with progress := job.progress.abort }).map Job.command ++
      _ = _
    rw [List.map_map]
    exact h.received
  · obtain ⟨job', hjob', rfl⟩ := List.mem_map.mp hjob
    have hrequest := h.request job' hjob'
    cases hp : job'.progress <;> simpa [hp, Progress.abort, Progress.request] using hrequest

theorem kept_step (h : Kept client chain X t) {a : ToAmplifier.Action}
    (hs : ToAmplifier.step client chain t a = some t') : Kept client chain X t' := by
  cases ToAmplifier.step_eq_some.mp hs with
  | send command hopen =>
    refine ⟨?_, h.request, fun hterm => ?_, h.givenUp⟩
    · rw [← List.append_assoc, h.received]
    · rw [(h.drained hterm).1] at hopen
      cases hopen
  | close => exact ⟨h.received, h.request, fun hterm => ⟨rfl, (h.drained hterm).2⟩, h.givenUp⟩
  | receive command rest hphase hqueue =>
    obtain ⟨hok, hcommand⟩ := ToAmplifier.ok_internal client chain command
    refine ⟨?_, fun job hjob => ?_, fun hterm => ?_, fun job hjob request hrun => ?_⟩
    · have hrec := h.received
      rw [hqueue] at hrec
      rw [List.map_append, List.append_assoc, ← hrec]
      simp [hcommand]
    · rcases List.mem_append.mp hjob with hjob | hjob
      · exact h.request job hjob
      · rw [List.mem_singleton.mp hjob]
        exact hok.request
    · have hnil := (h.drained hterm).2
      rw [hqueue] at hnil
      cases hnil
    · rcases List.mem_append.mp hjob with hjob | hjob
      · exact h.givenUp job hjob request hrun
      · -- the task of a command just received is neither aborted nor cancelled
        rw [List.mem_singleton.mp hjob] at hrun
        rcases hrun with hrun | hcan
        · cases (hok.running request true hrun).1
        · cases hok.cancelled request hcan
  | pending hphase hqueue hopen => exact ⟨h.received, h.request, h.drained, h.givenUp⟩
  | closed hphase hqueue hopen =>
    have habort := h.abortAll h.drained
    exact ⟨habort.received, habort.request, fun _ => ⟨hopen, hqueue⟩, fun _ _ _ _ => Or.inr rfl⟩
  | collect i job hphase hi hset hready =>
    have hkept := h.setJob { job with inSet := false } hi rfl rfl fun _ hrun => hrun
    exact ⟨hkept.received, hkept.request, hkept.drained, hkept.givenUp⟩
  | finish hphase hterm hempty => exact ⟨h.received, h.request, h.drained, h.givenUp⟩
  | wait hphase hmore => exact ⟨h.received, h.request, h.drained, h.givenUp⟩
  | execute i execution job request aborted hi hrun =>
    refine h.setJob _ hi rfl ?_ ?_
    · rw [hrun]
      rfl
    · rintro _ (hno | hno) <;> cases hno
  | cancel i job request hi hrun =>
    refine h.setJob _ hi rfl ?_ ?_
    · rw [hrun]
      rfl
    · rintro request' (hno | hcan)
      · cases hno
      · cases hcan
        exact Or.inl hrun

end Commands

/-- The end of the race gives the commands up that are left. -/
theorem kept_endRace {chain : String} {X : Prop} {t : ToAmplifier.State}
    (h : Kept client chain X t) (result : Except ProcessError Unit) :
    Kept client chain ((State.endRace s result).phase.isGone = true) t.abortAll :=
  (h.abortAll h.drained).mono fun _ => rfl

theorem kept_component_step (h : Kept client config.chain (s.phase.isGone = true) s.toAmplifier)
    (hs : step config client s a = some s') :
    Kept client config.chain (s'.phase.isGone = true) s'.toAmplifier := by
  cases moves_of_step hs with
  | setUp phase hphase =>
    refine h.mono fun hexit => ?_
    rw [hphase] at hexit
    cases hexit
  | healthcheck failures hphase => exact h
  | unhealthy err hphase => exact kept_endRace (s := s) h _
  | publish a t hallowed ht hon => exact kept_step h ht
  | published a t hphase ht hended => exact kept_endRace (s := s) (kept_step h ht) _
  | listen a f hf => exact h
  | notStarted a f hphase hf => exact kept_endRace (s := s) h _

/-- So does a drop. -/
theorem kept_drop {chain : String} (h : Kept client chain (s.phase.isGone = true) s.toAmplifier) :
    Kept client chain (s.drop.phase.isGone = true) s.drop.toAmplifier := by
  rcases drop_eq s with ⟨heq, -⟩ | heq <;> rw [heq]
  · exact h
  · exact (h.abortAll h.drained).mono fun _ => rfl

/-- No request is left running. -/
def AllAborted (t : ToAmplifier.State) : Prop :=
  ∀ job ∈ t.jobs, ∀ request, job.progress ≠ .running request false

theorem allAborted_abortAll (t : ToAmplifier.State) : AllAborted t.abortAll := by
  intro job hjob request hrun
  obtain ⟨job', -, rfl⟩ := List.mem_map.1 hjob
  cases hp : job'.progress <;> simp [hp, ToAmplifier.Progress.abort] at hrun

/-- Outside the race no request is begun. -/
theorem allAborted_publish {t t' : ToAmplifier.State} {b : ToAmplifier.Action} {chain : String}
    (hphase : s.phase ≠ .racing) (hallowed : toAmplifierAllowed s.phase b = true)
    (h : AllAborted t) (hs : ToAmplifier.step client chain t b = some t') : AllAborted t' := by
  have hset : ∀ {i : ℕ} {job : ToAmplifier.Job},
      (∀ request, job.progress ≠ .running request false) → AllAborted (t.setJob i job) := by
    intro i job hjob k hk
    rcases List.mem_or_eq_of_mem_set hk with hk | rfl
    · exact h k hk
    · exact hjob
  cases ToAmplifier.step_eq_some.1 hs with
  | send | close => exact h
  | receive | pending | closed | collect | finish | wait =>
    exact absurd (of_decide_eq_true hallowed) hphase
  | execute i execution job request aborted hi hrun => exact hset (by simp)
  | cancel i job request hi hrun => exact hset (by simp)

theorem allAborted_step (h : s.phase ≠ .racing → AllAborted s.toAmplifier)
    (hs : step config client s a = some s') (hphase : s'.phase ≠ .racing) :
    AllAborted s'.toAmplifier := by
  cases moves_of_step hs with
  | setUp phase hstarting => exact h (by simp [hstarting])
  | publish a t hallowed ht hon => exact allAborted_publish hphase hallowed (h hphase) ht
  | healthcheck | listen => exact h hphase
  | unhealthy | published | notStarted => exact allAborted_abortAll _

theorem allAborted_drop (h : s.phase ≠ .racing → AllAborted s.toAmplifier) :
    s.drop.phase ≠ .racing → AllAborted s.drop.toAmplifier := by
  rcases drop_eq s with ⟨heq, -⟩ | heq <;> rw [heq]
  · exact h
  · exact fun _ => allAborted_abortAll _

/-- What the component accounts for: a command is given up only once no client is left and all
commands have been received, or the component is gone, and outside its race no request is left
running. -/
structure KeepsCommands (client : ToAmplifier.AmplifierApiClient) (chain : String) (s : State) :
    Prop where
  received : s.toAmplifier.jobs.map ToAmplifier.Job.command ++ s.toAmplifier.queue =
    s.toAmplifier.sent
  request : ∀ job ∈ s.toAmplifier.jobs, job.progress.request = client.requestOf chain job.command
  givenUp : ∀ job ∈ s.toAmplifier.jobs, ∀ request,
    job.progress = .running request true ∨ job.progress = .cancelled request →
      s.phase.isGone = true ∨ s.toAmplifier.senders = false ∧ s.toAmplifier.queue = []
  aborted : s.phase ≠ .racing → AllAborted s.toAmplifier

theorem keepsCommands_of_lives {past : FromAmplifier.State} {dropped : Bool}
    (h : (process config client past).Lives dropped s) : KeepsCommands client config.chain s := by
  have hkept : Kept client config.chain (s.phase.isGone = true) s.toAmplifier :=
    h.invariant (P := fun s : State =>
        Kept client config.chain (s.phase.isGone = true) s.toAmplifier)
      kept_init (fun _ _ _ => kept_component_step) fun _ => kept_drop
  have haborted : s.phase ≠ .racing → AllAborted s.toAmplifier :=
    h.invariant (P := fun s : State => s.phase ≠ .racing → AllAborted s.toAmplifier)
      (fun _ _ hjob => (by cases hjob)) (fun _ _ _ => allAborted_step) fun _ => allAborted_drop
  exact ⟨hkept.received, hkept.request,
    fun job hjob request hrun => (hkept.givenUp job hjob request hrun).imp_right hkept.drained,
    haborted⟩

/-! ### The tasks -/

/-- Seen by the polling half, the component is a run without a crash. -/
theorem refines_fromAmplifier : Refines (ofFn (step config client))
    (ofFn (FromAmplifier.step config.getChainsLimit)) State.fromAmplifier fun _ => True where
  preserves _ _ _ _ _ := trivial
  simulates s a s' _ hs := by
    cases moves_of_step hs with
    | setUp phase hphase => exact .refl
    | healthcheck failures hphase => exact .refl
    | unhealthy err hphase => exact .refl
    | publish a t hallowed ht hon => exact .refl
    | published a t hphase ht hended => exact .refl
    | listen a f hf => exact .single hf
    | notStarted a f hphase hf => exact .single hf

theorem fromAmplifier_drop (s : State) : s.drop.fromAmplifier = s.fromAmplifier := by
  rcases drop_eq s with ⟨heq, -⟩ | heq <;> rw [heq]

/-- A drop leaves the polling half as it is, so that it is a run without a crash also then. -/
theorem fromAmplifier_of_lives {past : FromAmplifier.State} {dropped : Bool}
    (h : (process config client past).Lives dropped s) :
    Reach (ofFn (FromAmplifier.step config.getChainsLimit)) past.crash s.fromAmplifier := by
  refine h.invariant (P := fun s : State =>
    Reach (ofFn (FromAmplifier.step config.getChainsLimit)) past.crash s.fromAmplifier) .refl
    (fun s a s' hreach hs => ?_) fun (s : State) hreach => ?_
  · exact hreach.trans (refines_fromAmplifier.simulates s a s' trivial hs)
  · exact (fromAmplifier_drop s).symm ▸ hreach

end Amplifier
end RelayerCore
