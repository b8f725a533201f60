import RelayerCore.AmplifierApi.Client
import RelayerCore.Lib.Machine

/-!
# The publishing half of the Amplifier component (`to_amplifier.rs`)

`process` receives commands from a channel and posts each in a task of its own; the tasks live in a
`JoinSet`, from which `process` collects those that are over.  The clients that send commands, the
requests and `process` take their steps in any order.  When the last client is gone and the channel
is empty, `process` aborts the tasks of the set, collects them, and ends.
-/

namespace RelayerCore
namespace ToAmplifier

open Machine

/-- A command that the component can act upon. -/
inductive AmplifierCommand
  | publishEvents (events : PublishEventsRequest)
  deriving DecidableEq

/-- `AmplifierRequest`: a request that is ready to be sent. -/
structure AmplifierRequest where
  endpoint : String
  payload : List UInt8
  deriving DecidableEq

/-- `AmplifierApiClient`, with what it takes from elsewhere: the joining of URLs, and the encoding
and decoding of JSON. -/
structure AmplifierApiClient where
  path : PostEvents → Except AmplifierApiError String
  toVec : PublishEventsRequest → Except AmplifierApiError (List UInt8)
  fromSlice : List UInt8 → Option PublishEventsResult
  fromSliceError : List UInt8 → Option ErrorResponse

/-- `build_request`. -/
def AmplifierApiClient.buildRequest (client : AmplifierApiClient) (request : PostEvents) :
    Except AmplifierApiError AmplifierRequest := do
  let endpoint ← client.path request
  let payload ← client.toVec request.payload
  return ⟨endpoint, payload⟩

/-- `execute`: the answer, or the error that kept the request from being answered. -/
abbrev Execution := Except AmplifierApiError AmplifierResponse

/-- `process_publish_events_request`; the items of the result are only logged. -/
def processPublishEventsRequest (client : AmplifierApiClient) (execution : Execution) :
    Except CallError Unit :=
  match execution with
  | .error err => .error (.send err)
  | .ok res =>
    ((Exchange.answered res).json client.fromSlice client.fromSliceError).map fun _ => ()

/-- What has become of a command: its request could not be built, or a task posts it, which may
have been told to abort, has run to its end, or was cancelled. -/
inductive Progress
  | refused (err : AmplifierApiError)
  | running (request : AmplifierRequest) (aborted : Bool)
  | finished (request : AmplifierRequest) (result : Except CallError Unit)
  | cancelled (request : AmplifierRequest)
  deriving DecidableEq

/-- The task is over. -/
def Progress.ready : Progress → Bool
  | .finished .. | .cancelled _ => true
  | _ => false

/-- `abort`: a task that is still running is to be cancelled. -/
def Progress.abort : Progress → Progress
  | .running request _ => .running request true
  | p => p

/-- The request of a task that is still running gets its answer, or an error. -/
def Progress.execute (client : AmplifierApiClient) (execution : Execution) :
    Progress → Option Progress
  | .running request _ => some (.finished request (processPublishEventsRequest client execution))
  | _ => none

/-- An aborted task is cancelled, unless it is over already. -/
def Progress.cancel : Progress → Option Progress
  | .running request true => some (.cancelled request)
  | _ => none

/-- A received command; `inSet` tells whether its task is in the `JoinSet`. -/
structure Job where
  command : AmplifierCommand
  progress : Progress
  inSet : Bool
  deriving DecidableEq

/-- Where `process` stands: about to receive, about to collect a task, or at its end. -/
inductive Phase
  | receiving
  | joining
  | ended
  deriving DecidableEq

/-- `senders` tells whether some client is left; `jobs` are the received commands, in
order; `sent` remembers the commands the clients have sent. -/
structure State where
  sent : List AmplifierCommand
  queue : List AmplifierCommand
  senders : Bool
  terminated : Bool
  phase : Phase
  jobs : List Job

def init : State := ⟨[], [], true, false, .receiving, []⟩

/-- The steps of the clients, of `process`, and of the tasks. -/
inductive Action
  | send (command : AmplifierCommand)
  | close
  | poll
  | joinNext (ready : Option ℕ)
  | execute (i : ℕ) (execution : Execution)
  | cancel (i : ℕ)

/-- `internal`: build the request of a command and spawn a task for it. -/
def internal (client : AmplifierApiClient) (chain : String) : AmplifierCommand → Job
  | .publishEvents events =>
    match client.buildRequest ⟨.new chain, events⟩ with
    | .error err => ⟨.publishEvents events, .refused err, false⟩
    | .ok request => ⟨.publishEvents events, .running request false, true⟩

/-- `abort_all`. -/
def State.abortAll (s : State) : State :=
  { s with jobs := s.jobs.map fun job => { job with progress := job.progress.abort } }

def State.setJob (s : State) (i : ℕ) (job : Job) : State := { s with jobs := s.jobs.set i job }

/-- `poll_next` of the receiver, and what `process` makes of it. -/
def poll (client : AmplifierApiClient) (chain : String) (s : State) : Option State :=
  match s.phase, s.queue with
  | .receiving, command :: rest =>
    some { s with queue := rest, jobs := s.jobs ++ [internal client chain command] }
  | .receiving, [] =>
    if s.senders then some { s with phase := .joining }
    -- `Poll::Ready(None)`: no client is left
    else some { s.abortAll with terminated := true, phase := .joining }
  | _, _ => none

/-- `poll_join_next`: a task that is over, or none.  If the set is empty and the receiver has
terminated, `process` ends. -/
def joinNext (s : State) (ready : Option ℕ) : Option State :=
  match s.phase, ready with
  | .joining, some i =>
    match s.jobs[i]? with
    | some job =>
      if job.inSet ∧ job.progress.ready then
        some { s.setJob i { job with inSet := false } with phase := .receiving }
      else none
    | none => none
  | .joining, none =>
    if s.terminated ∧ ∀ job ∈ s.jobs, job.inSet = false then some { s with phase := .ended }
    else some { s with phase := .receiving }
  | _, _ => none

/-- A task moves on. -/
def stepTask (s : State) (i : ℕ) (next : Progress → Option Progress) : Option State :=
  match s.jobs[i]? with
  | some job => (next job.progress).map fun progress => s.setJob i { job with progress }
  | none => none

def step (client : AmplifierApiClient) (chain : String) (s : State) : Action → Option State
  | .send command =>
    if s.senders then some { s with sent := s.sent ++ [command], queue := s.queue ++ [command] }
    else none
  | .close => some { s with senders := false }
  | .poll => poll client chain s
  | .joinNext ready => joinNext s ready
  | .execute i execution => stepTask s i (Progress.execute client execution)
  | .cancel i => stepTask s i Progress.cancel

/-! ### What a step can do -/

section Moves

variable (client : AmplifierApiClient) (chain : String)

/-- The steps, case by case. -/
inductive Moves (s : State) : Action → State → Prop
  | send (command : AmplifierCommand) (hopen : s.senders = true) :
      Moves s (.send command)
        { s with sent := s.sent ++ [command], queue := s.queue ++ [command] }
  | close : Moves s .close { s with senders := false }
  | receive (command : AmplifierCommand) (rest : List AmplifierCommand)
      (hphase : s.phase = .receiving) (hqueue : s.queue = command :: rest) :
      Moves s .poll { s with queue := rest, jobs := s.jobs ++ [internal client chain command] }
  | pending (hphase : s.phase = .receiving) (hqueue : s.queue = []) (hopen : s.senders = true) :
      Moves s .poll { s with phase := .joining }
  | closed (hphase : s.phase = .receiving) (hqueue : s.queue = []) (hopen : s.senders = false) :
      Moves s .poll { s.abortAll with terminated := true, phase := .joining }
  | collect (i : ℕ) (job : Job) (hphase : s.phase = .joining) (hi : s.jobs[i]? = some job)
      (hset : job.inSet = true) (hready : job.progress.ready = true) :
      Moves s (.joinNext (some i))
        { s.setJob i { job with inSet := false } with phase := .receiving }
  | finish (hphase : s.phase = .joining) (hterm : s.terminated = true)
      (hempty : ∀ job ∈ s.jobs, job.inSet = false) :
      Moves s (.joinNext none) { s with phase := .ended }
  | wait (hphase : s.phase = .joining)
      (hmore : ¬(s.terminated = true ∧ ∀ job ∈ s.jobs, job.inSet = false)) :
      Moves s (.joinNext none) { s with phase := .receiving }
  | execute (i : ℕ) (execution : Execution) (job : Job) (request : AmplifierRequest)
      (aborted : Bool) (hi : s.jobs[i]? = some job)
      (hrun : job.progress = .running request aborted) :
      Moves s (.execute i execution) (s.setJob i
        { job with progress := .finished request (processPublishEventsRequest client execution) })
  | cancel (i : ℕ) (job : Job) (request : AmplifierRequest) (hi : s.jobs[i]? = some job)
      (hrun : job.progress = .running request true) :
      Moves s (.cancel i) (s.setJob i { job with progress := .cancelled request })

variable {client chain} {s s' : State} {a : Action}

omit client chain in
theorem stepTask_eq_some {i : ℕ} {next : Progress → Option Progress} :
    stepTask s i next = some s' ↔ ∃ job progress, s.jobs[i]? = some job ∧
      next job.progress = some progress ∧ s' = s.setJob i { job with progress } := by
  unfold stepTask
  constructor
  · intro hs
    split at hs
    · rename_i job hi
      obtain ⟨progress, hnext, rfl⟩ := Option.map_eq_some_iff.mp hs
      exact ⟨job, progress, hi, hnext, rfl⟩
    · cases hs
  · rintro ⟨job, progress, hi, hnext, rfl⟩
    simp [hi, hnext]

theorem step_eq_some : step client chain s a = some s' ↔ Moves client chain s a s' := by
  constructor
  · intro hs
    cases a with
    | send command =>
      obtain ⟨hopen, hs⟩ := Option.ite_none_right_eq_some.mp hs
      cases hs
      exact .send command hopen
    | close =>
      cases hs
      exact .close
    | poll =>
      change poll client chain s = some s' at hs
      unfold poll at hs
      split at hs
      · rename_i command rest hphase hqueue
        cases hs
        exact .receive command rest hphase hqueue
      · rename_i hphase hqueue
        split_ifs at hs with hopen
        · cases hs
          exact .pending hphase hqueue hopen
        · cases hs
          exact .closed hphase hqueue (by simpa using hopen)
      · cases hs
    | joinNext ready =>
      change joinNext s ready = some s' at hs
      unfold joinNext at hs
      split at hs
      · rename_i i hphase
        split at hs
        · rename_i job hi
          split_ifs at hs with hjob
          cases hs
          exact .collect i job hphase hi hjob.1 hjob.2
        · cases hs
      · rename_i hphase
        split_ifs at hs with hdone
        · cases hs
          exact .finish hphase hdone.1 hdone.2
        · cases hs
          exact .wait hphase hdone
      · cases hs
    | execute i execution =>
      obtain ⟨job, progress, hi, hnext, rfl⟩ := stepTask_eq_some.mp hs
      unfold Progress.execute at hnext
      split at hnext
      · rename_i request aborted hrun
        cases hnext
        exact .execute i execution job request aborted hi hrun
      · cases hnext
    | cancel i =>
      obtain ⟨job, progress, hi, hnext, rfl⟩ := stepTask_eq_some.mp hs
      unfold Progress.cancel at hnext
      split at hnext
      · rename_i request hrun
        cases hnext
        exact .cancel i job request hi hrun
      · cases hnext
  · intro hs
    cases hs with
    | send command hopen => simp [step, hopen]
    | close => rfl
    | receive command rest hphase hqueue => simp [step, poll, hphase, hqueue]
    | pending hphase hqueue hopen => simp [step, poll, hphase, hqueue, hopen]
    | closed hphase hqueue hopen => simp [step, poll, hphase, hqueue, hopen]
    | collect i job hphase hi hset hready => simp [step, joinNext, hphase, hi, hset, hready]
    | finish hphase hterm hempty =>
      simp only [step, joinNext, hphase, if_pos (And.intro hterm hempty)]
    | wait hphase hmore => simp only [step, joinNext, hphase, if_neg hmore]
    | execute i execution job request aborted hi hrun =>
      exact stepTask_eq_some.mpr ⟨job, _, hi, by rw [hrun]; rfl, rfl⟩
    | cancel i job request hi hrun =>
      exact stepTask_eq_some.mpr ⟨job, _, hi, by rw [hrun]; rfl, rfl⟩

end Moves

end ToAmplifier
end RelayerCore
