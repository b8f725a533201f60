import Mathlib.Data.String.Basic
import RelayerCore.Lib.Machine

/-!
# The supervisor (`supervisor/src/lib.rs`)

One thread runs the start-up pass over the worker builders and then the supervision loop; each
worker runs in a thread of its own and reports through an `mpsc` channel that it wants to be
restarted.  `step` interleaves them: every label is one step of the supervisor or of one worker
thread, or the cancellation of the token.

The names of the builders are the keys of a `BTreeMap`, iterated in increasing order.  Whether a
builder or a runtime creation succeeds and how a call of `do_work` ends are choices of the labels.
-/

namespace RelayerCore
namespace Supervisor

abbrev WorkerName := String

/-- The keys of `worker_builders: BTreeMap<WorkerName, WorkerBuildFn>`, in its order. -/
structure WorkerBuilders where
  names : List WorkerName
  sorted : names.Pairwise (· < ·)

theorem WorkerBuilders.nodup (builders : WorkerBuilders) : builders.names.Nodup :=
  builders.sorted.imp fun h => ne_of_lt h

/-- How far a worker thread has come in `spawn_worker`. -/
inductive Stage
  | spawned
  | runtimeFailed
  | working
  | exited
  | reporting
  /-- past its last report, or past the check that found nothing to report -/
  | leaving
  | done
  /-- `expect("shutting down")` failed -/
  | panicked
  deriving DecidableEq

/-- The thread sends no report any more. -/
def Stage.passed : Stage → Bool
  | .leaving | .done | .panicked => true
  | _ => false

/-- The thread has ended, so that a join returns. -/
def Stage.over : Stage → Bool
  | .done | .panicked => true
  | _ => false

structure Thread where
  name : WorkerName
  stage : Stage
  deriving DecidableEq

/-- How one `do_work` of the work loop ends. -/
inductive WorkResult
  | ok
  | err
  | panic
  deriving DecidableEq

/-- Where the supervisor thread stands. -/
inductive Control
  /-- before the tokio runtime of the supervisor exists -/
  | booting
  /-- the runtime could not be created and the thread has returned -/
  | bootFailed
  /-- in the start-up pass, with the names still to come -/
  | startup (rest : List WorkerName)
  /-- in the start-up pass, awaiting the builder of a name -/
  | startupBuilding (name : WorkerName) (rest : List WorkerName)
  /-- at the `select!` of the supervision loop -/
  | selecting
  /-- with a crash report taken from the channel -/
  | received (name : WorkerName)
  /-- awaiting the builder of a reported name -/
  | building (name : WorkerName)
  /-- joining the thread a new one replaces -/
  | joining (name : WorkerName) (old new : ℕ)
  /-- in the grace period after the shutdown signal -/
  | shuttingDown
  | stopped
  /-- `expect("builder should be present")` failed -/
  | panicked
  deriving DecidableEq

/-- The receiving end of the channel still exists. -/
def Control.receiving : Control → Bool
  | .bootFailed | .stopped | .panicked => false
  | _ => true

structure State where
  control : Control
  threads : List Thread
  channel : List WorkerName
  activeWorkers : WorkerName → Option ℕ
  cancelled : Bool

def init : State :=
  { control := .booting
    threads := []
    channel := []
    activeWorkers := fun _ => none
    cancelled := false }

/-- The labels: the cancellation, the steps of the supervisor, and those of thread `i`. -/
inductive Action
  | cancel
  | boot (ok : Bool)
  | next
  | built (ok : Bool)
  | tick
  | recv
  | restart
  | joined
  | graceOver
  | runtime (i : ℕ) (ok : Bool)
  | work (i : ℕ) (result : WorkResult)
  | observeCancel (i : ℕ)
  | check (i : ℕ)
  | report (i : ℕ)
  | exit (i : ℕ)
  deriving DecidableEq

/-- `_ = worker_crashed_tx.send(name)`: the report is lost once the receiver is gone. -/
def State.send (s : State) (name : WorkerName) : State :=
  if s.control.receiving then { s with channel := s.channel ++ [name] } else s

/-- `spawn_worker`: a new thread for the name. -/
def State.spawnWorker (s : State) (name : WorkerName) : State :=
  { s with threads := s.threads ++ [⟨name, .spawned⟩] }

def State.setStage (s : State) (i : ℕ) (t : Thread) (stage : Stage) : State :=
  { s with threads := s.threads.set i { t with stage := stage } }

def State.goto (s : State) (control : Control) : State := { s with control := control }

def State.activate (s : State) (name : WorkerName) (i : ℕ) : State :=
  { s with activeWorkers := Function.update s.activeWorkers name (some i) }

/-- A step of the supervisor thread. -/
def supervise (builders : WorkerBuilders) (s : State) : Action → Option State
  | .boot ok =>
    match s.control with
    | .booting => some (s.goto (if ok then .startup builders.names else .bootFailed))
    | _ => none
  | .next =>
    match s.control with
    | .startup (name :: rest) => some (s.goto (.startupBuilding name rest))
    | .startup [] => some (s.goto .selecting)
    | _ => none
  | .built ok =>
    match s.control with
    | .startupBuilding name rest =>
      if ok then
        some (((s.spawnWorker name).activate name s.threads.length).goto (.startup rest))
      else some ((s.send name).goto (.startup rest))
    | .building name =>
      if ok then
        match s.activeWorkers name with
        | some old => some ((s.spawnWorker name).goto (.joining name old s.threads.length))
        | none => some (((s.spawnWorker name).activate name s.threads.length).goto .selecting)
      else some ((s.send name).goto .selecting)
    | _ => none
  | .tick =>
    match s.control with
    | .selecting => some (if s.cancelled then s.goto .shuttingDown else s)
    | _ => none
  | .recv =>
    match s.control, s.channel with
    | .selecting, name :: rest => some ({ s with channel := rest }.goto (.received name))
    | _, _ => none
  | .restart =>
    match s.control with
    | .received name =>
      if s.cancelled then some (s.goto .selecting)
      else if name ∈ builders.names then some (s.goto (.building name))
      else some (s.goto .panicked)
    | _ => none
  | .joined =>
    match s.control with
    | .joining name old new =>
      if (s.threads[old]?).all (fun t => t.stage.over) then
        some ((s.activate name new).goto .selecting)
      else none
    | _ => none
  | .graceOver =>
    match s.control with
    | .shuttingDown => some (s.goto .stopped)
    | _ => none
  | _ => none

/-- The steps of the supervisor thread, case by case. -/
inductive Supervises (builders : WorkerBuilders) (s : State) : Action → State → Prop
  | bootFails (hc : s.control = .booting) : Supervises builders s (.boot false) (s.goto .bootFailed)
  | boots (hc : s.control = .booting) :
      Supervises builders s (.boot true) (s.goto (.startup builders.names))
  | startupNext (name : WorkerName) (rest : List WorkerName)
      (hc : s.control = .startup (name :: rest)) :
      Supervises builders s .next (s.goto (.startupBuilding name rest))
  | startupOver (hc : s.control = .startup []) : Supervises builders s .next (s.goto .selecting)
  | startupBuilt (name : WorkerName) (rest : List WorkerName)
      (hc : s.control = .startupBuilding name rest) :
      Supervises builders s (.built true)
        (((s.spawnWorker name).activate name s.threads.length).goto (.startup rest))
  | startupFails (name : WorkerName) (rest : List WorkerName)
      (hc : s.control = .startupBuilding name rest) :
      Supervises builders s (.built false) ((s.send name).goto (.startup rest))
  | replaced (name : WorkerName) (old : ℕ) (hc : s.control = .building name)
      (hold : s.activeWorkers name = some old) :
      Supervises builders s (.built true)
        ((s.spawnWorker name).goto (.joining name old s.threads.length))
  | rebuilt (name : WorkerName) (hc : s.control = .building name)
      (hold : s.activeWorkers name = none) :
      Supervises builders s (.built true)
        (((s.spawnWorker name).activate name s.threads.length).goto .selecting)
  | rebuildFails (name : WorkerName) (hc : s.control = .building name) :
      Supervises builders s (.built false) ((s.send name).goto .selecting)
  | seesCancel (hc : s.control = .selecting) (hcan : s.cancelled = true) :
      Supervises builders s .tick (s.goto .shuttingDown)
  | ticks (hc : s.control = .selecting) (hcan : s.cancelled = false) : Supervises builders s .tick s
  | receives (name : WorkerName) (rest : List WorkerName) (hc : s.control = .selecting)
      (hch : s.channel = name :: rest) :
      Supervises builders s .recv ({ s with channel := rest }.goto (.received name))
  | drops (name : WorkerName) (hc : s.control = .received name) (hcan : s.cancelled = true) :
      Supervises builders s .restart (s.goto .selecting)
  | rebuilds (name : WorkerName) (hc : s.control = .received name) (hcan : s.cancelled = false)
      (hname : name ∈ builders.names) : Supervises builders s .restart (s.goto (.building name))
  | panics (name : WorkerName) (hc : s.control = .received name) (hname : name ∉ builders.names) :
      Supervises builders s .restart (s.goto .panicked)
  | joins (name : WorkerName) (old new : ℕ) (hc : s.control = .joining name old new)
      (hover : (s.threads[old]?).all (fun t => t.stage.over) = true) :
      Supervises builders s .joined ((s.activate name new).goto .selecting)
  | stops (hc : s.control = .shuttingDown) : Supervises builders s .graceOver (s.goto .stopped)

theorem supervises_of_supervise {builders : WorkerBuilders} {s s' : State} {a : Action}
    (hs : supervise builders s a = some s') : Supervises builders s a s' := by
  cases a with
  | boot ok =>
    simp only [supervise] at hs
    split at hs <;> cases hs
    rename_i hc
    cases ok with
    | true => exact .boots hc
    | false => exact .bootFails hc
  | next =>
    simp only [supervise] at hs
    split at hs <;> cases hs
    · rename_i name rest hc
      exact .startupNext name rest hc
    · rename_i hc
      exact .startupOver hc
  | built ok =>
    simp only [supervise] at hs
    split at hs
    · rename_i name rest hc
      cases ok with
      | true =>
        cases hs
        exact .startupBuilt name rest hc
      | false =>
        cases hs
        exact .startupFails name rest hc
    · rename_i name hc
      cases ok with
      | true =>
        rw [if_pos rfl] at hs
        split at hs <;> cases hs
        · rename_i old hold
          exact .replaced name old hc hold
        · rename_i hold
          exact .rebuilt name hc hold
      | false =>
        cases hs
        exact .rebuildFails name hc
    · cases hs
  | tick =>
    simp only [supervise] at hs
    split at hs <;> cases hs
    rename_i hc
    split_ifs with hcan
    · exact .seesCancel hc hcan
    · exact .ticks hc (by simpa using hcan)
  | recv =>
    simp only [supervise] at hs
    split at hs <;> cases hs
    rename_i name rest hc hch
    exact .receives name rest hc hch
  | restart =>
    simp only [supervise] at hs
    split at hs
    · rename_i name hc
      split_ifs at hs with hcan hname <;> cases hs
      · exact .drops name hc hcan
      · exact .rebuilds name hc (by simpa using hcan) hname
      · exact .panics name hc hname
    · cases hs
  | joined =>
    simp only [supervise] at hs
    split at hs
    · rename_i name old new hc
      obtain ⟨hover, hs⟩ := Option.ite_none_right_eq_some.1 hs
      cases hs
      exact .joins name old new hc hover
    · cases hs
  | graceOver =>
    simp only [supervise] at hs
    split at hs <;> cases hs
    rename_i hc
    exact .stops hc
  | _ => cases hs

/-- A step of worker thread `i`, the closure of `spawn_worker`. -/
def runThread (s : State) : Action → Option State
  | .runtime i ok =>
    match s.threads[i]? with
    | some ⟨name, .spawned⟩ =>
      some (s.setStage i ⟨name, .spawned⟩ (if ok then .working else .runtimeFailed))
    | _ => none
  | .work i result =>
    match s.threads[i]? with
    | some ⟨name, .working⟩ =>
      some (s.setStage i ⟨name, .working⟩ (if result = .ok then .working else .exited))
    | _ => none
  | .observeCancel i =>
    match s.threads[i]? with
    | some ⟨name, .working⟩ =>
      if s.cancelled then some (s.setStage i ⟨name, .working⟩ .exited) else none
    | _ => none
  | .check i =>
    match s.threads[i]? with
    | some ⟨name, .exited⟩ =>
      some (s.setStage i ⟨name, .exited⟩ (if s.cancelled then .reporting else .leaving))
    | _ => none
  | .report i =>
    match s.threads[i]? with
    | some ⟨name, .runtimeFailed⟩ =>
      if s.control.receiving then some ((s.setStage i ⟨name, .runtimeFailed⟩ .leaving).send name)
      else some (s.setStage i ⟨name, .runtimeFailed⟩ .panicked)
    | some ⟨name, .reporting⟩ =>
      -- here the result of `send` is not looked at
      some ((s.setStage i ⟨name, .reporting⟩ .leaving).send name)
    | _ => none
  | .exit i =>
    match s.threads[i]? with
    | some ⟨name, .leaving⟩ => some (s.setStage i ⟨name, .leaving⟩ .done)
    | _ => none
  | _ => none

/-- The steps of the worker threads, case by case. -/
inductive RunsThread (s : State) : Action → State → Prop
  | starts (i : ℕ) (name : WorkerName) (ht : s.threads[i]? = some ⟨name, .spawned⟩) :
      RunsThread s (.runtime i true) (s.setStage i ⟨name, .spawned⟩ .working)
  | startFails (i : ℕ) (name : WorkerName) (ht : s.threads[i]? = some ⟨name, .spawned⟩) :
      RunsThread s (.runtime i false) (s.setStage i ⟨name, .spawned⟩ .runtimeFailed)
  | works (i : ℕ) (name : WorkerName) (ht : s.threads[i]? = some ⟨name, .working⟩) :
      RunsThread s (.work i .ok) (s.setStage i ⟨name, .working⟩ .working)
  | workFails (i : ℕ) (name : WorkerName) (result : WorkResult) (hne : result ≠ .ok)
      (ht : s.threads[i]? = some ⟨name, .working⟩) :
      RunsThread s (.work i result) (s.setStage i ⟨name, .working⟩ .exited)
  | observes (i : ℕ) (name : WorkerName) (ht : s.threads[i]? = some ⟨name, .working⟩)
      (hcan : s.cancelled = true) :
      RunsThread s (.observeCancel i) (s.setStage i ⟨name, .working⟩ .exited)
  | checks (i : ℕ) (name : WorkerName) (ht : s.threads[i]? = some ⟨name, .exited⟩)
      (hcan : s.cancelled = true) :
      RunsThread s (.check i) (s.setStage i ⟨name, .exited⟩ .reporting)
  | leaves (i : ℕ) (name : WorkerName) (ht : s.threads[i]? = some ⟨name, .exited⟩)
      (hcan : s.cancelled = false) :
      RunsThread s (.check i) (s.setStage i ⟨name, .exited⟩ .leaving)
  | reportsFailure (i : ℕ) (name : WorkerName)
      (ht : s.threads[i]? = some ⟨name, .runtimeFailed⟩) (hrec : s.control.receiving = true) :
      RunsThread s (.report i) ((s.setStage i ⟨name, .runtimeFailed⟩ .leaving).send name)
  | panics (i : ℕ) (name : WorkerName) (ht : s.threads[i]? = some ⟨name, .runtimeFailed⟩)
      (hrec : s.control.receiving = false) :
      RunsThread s (.report i) (s.setStage i ⟨name, .runtimeFailed⟩ .panicked)
  | reports (i : ℕ) (name : WorkerName) (ht : s.threads[i]? = some ⟨name, .reporting⟩) :
      RunsThread s (.report i) ((s.setStage i ⟨name, .reporting⟩ .leaving).send name)
  | exits (i : ℕ) (name : WorkerName) (ht : s.threads[i]? = some ⟨name, .leaving⟩) :
      RunsThread s (.exit i) (s.setStage i ⟨name, .leaving⟩ .done)

theorem runsThread_of_runThread {s s' : State} {a : Action} (hs : runThread s a = some s') :
    RunsThread s a s' := by
  cases a with
  | runtime i ok =>
    simp only [runThread] at hs
    split at hs <;> cases hs
    rename_i name ht
    cases ok with
    | true => exact .starts i name ht
    | false => exact .startFails i name ht
  | work i result =>
    simp only [runThread] at hs
    split at hs <;> cases hs
    rename_i name ht
    split_ifs with hok
    · subst hok
      exact .works i name ht
    · exact .workFails i name result hok ht
  | observeCancel i =>
    simp only [runThread] at hs
    split at hs
    · rename_i name ht
      obtain ⟨hcan, hs⟩ := Option.ite_none_right_eq_some.1 hs
      cases hs
      exact .observes i name ht hcan
    · cases hs
  | check i =>
    simp only [runThread] at hs
    split at hs <;> cases hs
    rename_i name ht
    split_ifs with hcan
    · exact .checks i name ht hcan
    · exact .leaves i name ht (by simpa using hcan)
  | report i =>
    simp only [runThread] at hs
    split at hs
    · rename_i name ht
      split_ifs at hs with hrec <;> cases hs
      · exact .reportsFailure i name ht hrec
      · exact .panics i name ht (by simpa using hrec)
    · rename_i name ht
      cases hs
      exact .reports i name ht
    · cases hs
  | exit i =>
    simp only [runThread] at hs
    split at hs <;> cases hs
    rename_i name ht
    exact .exits i name ht
  | _ => cases hs

/-- One step of the whole: the token is cancelled, or a thread moves. -/
def step (builders : WorkerBuilders) (s : State) (a : Action) : Option State :=
  match a with
  | .cancel => some { s with cancelled := true }
  | .runtime .. | .work .. | .observeCancel .. | .check .. | .report .. | .exit .. =>
    runThread s a
  | _ => supervise builders s a

end Supervisor
end RelayerCore
