import RelayerCore.AmplifierApi.Client
import RelayerCore.Lib.Machine

/-!
# The polling half of the Amplifier component (`from_amplifier.rs`)

`process` runs the tick handler `internal` and, in background tasks, any number of requests
(`process_task_request`); the answers are sent into a channel read by a downstream consumer, which
handles the tasks in order and records each one in the `State`.  `step` interleaves all of these
with the growth of the API's listing, with failures and with crashes, which keep only the `State`.

`internal` reads the channel and the two cursors one after the other, so each read is a step.
-/

namespace RelayerCore
namespace FromAmplifier

/-- How far a tick has come in `internal`. -/
inductive Poll
  | idle
  | accepting
  | read (latestProcessedTask : Option TaskItemId)
  deriving DecidableEq

/-- How far a background task has come in `process_task_request`. -/
inductive Request
  | waiting (after : Option TaskItemId)
  | sending (rest : List TaskItem) (lastTaskItemId : TaskItemId)
  | setting (lastTaskItemId : TaskItemId)
  deriving DecidableEq

/-- Where the downstream consumer stands with the task it took last. -/
inductive Downstream
  | idle
  | handling (task : TaskItem)
  | recording (task : TaskItem)
  /-- the setter failed; the consumer may try again or go on -/
  | unrecorded (task : TaskItem)
  deriving DecidableEq

/-- The result of a setter of the `State`; a failed one may have stored the id all the same. -/
inductive SetResult
  | ok
  | err (stored : Bool)
  deriving DecidableEq

def SetResult.stores : SetResult → Bool
  | .ok => true
  | .err stored => stored

/-- `latestProcessed` and `latestQueried` are the `State`; `handled` and `pushed` remember what the
consumer has handled and what was sent into the channel. -/
structure State where
  api : TaskFeed
  latestProcessed : Option TaskItemId
  latestQueried : Option TaskItemId
  running : Bool
  poll : Poll
  requests : List Request
  channel : List TaskItem
  downstream : Downstream
  handled : List TaskItem
  pushed : List TaskItem

/-- The component before its start, over the listing and the `State` it finds. -/
def boot (api : TaskFeed) (latestProcessed latestQueried : Option TaskItemId) : State :=
  { api, latestProcessed, latestQueried, running := false, poll := .idle, requests := []
    channel := [], downstream := .idle, handled := [], pushed := [] }

/-- Nothing listed and nothing stored. -/
def init : State := boot .empty none none

inductive Action
  | listTask (task : TaskItem)
  | start (result : SetResult)
  | crash
  | tick
  | readProcessed
  | readQueried (built : Bool)
  | respond (i : ℕ) (answer : Except CallError GetTasksResult)
  | send (i : ℕ)
  | setQueried (i : ℕ) (result : SetResult)
  | take
  | handle
  | record (result : SetResult)

/-- `set_latest_queried_task_id`. -/
def State.setLatestQueried (s : State) (taskItemId : TaskItemId) (result : SetResult) : State :=
  { s with latestQueried := if result.stores then some taskItemId else s.latestQueried }

/-- `set_latest_processed_task_id`. -/
def State.setLatestProcessed (s : State) (taskItemId : TaskItemId) (result : SetResult) : State :=
  { s with latestProcessed := if result.stores then some taskItemId else s.latestProcessed }

/-- The consumer takes the first task of the channel. -/
def State.takeTask (s : State) (task : TaskItem) (rest : List TaskItem) : State :=
  { s with downstream := .handling task, channel := rest }

/-- The consumer records the task it has handled. -/
def State.recordTask (s : State) (task : TaskItem) (result : SetResult) : State :=
  { s.setLatestProcessed task.id result with
    downstream := if result = .ok then .idle else .unrecorded task }

/-- The background task is over. -/
def State.finish (s : State) (i : ℕ) : State := { s with requests := s.requests.eraseIdx i }

/-- A crash keeps the `State` and loses the channel, the requests and the consumer's task. -/
def State.crash (s : State) : State :=
  { s with running := false, poll := .idle, requests := [], channel := [], downstream := .idle }

/-- `process` up to its loop: continue from the latest processed item. -/
def startProcess (s : State) (result : SetResult) : State :=
  match s.latestProcessed with
  | some taskItemId => { s.setLatestQueried taskItemId result with running := result = .ok }
  | none => { s with running := true }

theorem startProcess_none {s : State} {result : SetResult} (h : s.latestProcessed = none) :
    startProcess s result = { s with running := true } := by
  unfold startProcess
  rw [h]

theorem startProcess_some {s : State} {result : SetResult} {id : TaskItemId}
    (h : s.latestProcessed = some id) :
    startProcess s result = { s.setLatestQueried id result with running := result = .ok } := by
  unfold startProcess
  rw [h]

/-- A step of `internal`. -/
def internal (s : State) : Action → Option State
  | .tick =>
    if s.running ∧ s.poll = .idle then
      some (if s.channel.isEmpty then { s with poll := .accepting } else s)
    else none
  | .readProcessed =>
    match s.poll with
    | .accepting => some { s with poll := .read s.latestProcessed }
    | _ => none
  | .readQueried built =>
    match s.poll with
    | .read latestProcessedTask =>
      if latestProcessedTask ≠ s.latestQueried then some { s with poll := .idle }
      else if built then
        some { s with poll := .idle, requests := s.requests ++ [.waiting latestProcessedTask] }
      else some { s with poll := .idle }
    | _ => none
  | _ => none

/-- A step of background task `i`. -/
def processTaskRequest (getChainsLimit : UInt8) (s : State) : Action → Option State
  | .respond i answer =>
    match s.requests[i]?, answer with
    | some (.waiting _), .error _ => some (s.finish i)
    | some (.waiting after), .ok res =>
      if res.tasks = s.api.getChains after (some getChainsLimit) then
        match res.tasks.getLast? with
        | none => some (s.finish i)
        | some last => some { s with requests := s.requests.set i (.sending res.tasks last.id) }
      else none
    | _, _ => none
  | .send i =>
    match s.requests[i]? with
    | some (.sending (task :: rest) lastTaskItemId) =>
      some { s with
        channel := s.channel ++ [task]
        pushed := s.pushed ++ [task]
        requests := s.requests.set i
          (if rest = [] then .setting lastTaskItemId else .sending rest lastTaskItemId) }
    | _ => none
  | .setQueried i result =>
    match s.requests[i]? with
    | some (.setting lastTaskItemId) => some ((s.setLatestQueried lastTaskItemId result).finish i)
    | _ => none
  | _ => none

/-- A step of the downstream consumer. -/
def consume (s : State) : Action → Option State
  | .take =>
    match s.downstream, s.channel with
    | .idle, task :: rest | .unrecorded _, task :: rest => some (s.takeTask task rest)
    | _, _ => none
  | .handle =>
    match s.downstream with
    | .handling task => some { s with downstream := .recording task, handled := task :: s.handled }
    | _ => none
  | .record result =>
    match s.downstream with
    | .recording task | .unrecorded task => some (s.recordTask task result)
    | _ => none
  | _ => none

/-- One step of the whole. -/
def step (getChainsLimit : UInt8) (s : State) (a : Action) : Option State :=
  match a with
  | .listTask task => (s.api.push? task).map fun api => { s with api := api }
  | .start result => if s.running then none else some (startProcess s result)
  | .crash => some s.crash
  | .tick | .readProcessed | .readQueried _ => internal s a
  | .respond .. | .send _ | .setQueried .. => processTaskRequest getChainsLimit s a
  | .take | .handle | .record _ => consume s a

/-! ### What a step can do -/

section Cases

variable {getChainsLimit : UInt8} {s s' : State} {a : Action}

/-- `internal` moves on within a tick, or spawns a request for the tasks after the queried one. -/
theorem internal_cases (hs : internal s a = some s') :
    (s.running = true ∨ s.poll ≠ .idle) ∧
      ((∃ p, (p = s.poll ∨ p = .idle ∨ p = .accepting ∨ p = .read s.latestProcessed) ∧
          s' = { s with poll := p }) ∨
        a = .readQueried true ∧ s.poll = .read s.latestQueried ∧
          s' = { s with
            poll := .idle, requests := s.requests ++ [.waiting s.latestQueried] }) := by
  cases a <;> simp only [internal] at hs <;> try contradiction
  case tick =>
    obtain ⟨⟨hrun, -⟩, hs⟩ := Option.ite_none_right_eq_some.1 hs
    cases hs
    refine ⟨Or.inl hrun, Or.inl ?_⟩
    split_ifs
    · exact ⟨.accepting, by simp, rfl⟩
    · exact ⟨s.poll, by simp, rfl⟩
  case readProcessed =>
    split at hs <;> cases hs
    rename_i hp
    exact ⟨Or.inr (by simp [hp]), Or.inl ⟨_, by simp, rfl⟩⟩
  case readQueried built =>
    split at hs
    · rename_i c hp
      refine ⟨Or.inr (by simp [hp]), ?_⟩
      split_ifs at hs with hne hbuilt <;> cases hs
      · exact Or.inl ⟨.idle, by simp, rfl⟩
      · have hc : c = s.latestQueried := not_not.1 hne
        subst hc
        exact Or.inr ⟨by rw [hbuilt], hp, rfl⟩
      · exact Or.inl ⟨.idle, by simp, rfl⟩
    · cases hs

/-- A background task ends without tasks, gets tasks, sends one, or ends by setting the cursor. -/
theorem processTaskRequest_cases (hs : processTaskRequest getChainsLimit s a = some s') :
    (∃ i after answer, a = .respond i answer ∧ s.requests[i]? = some (.waiting after) ∧
      ((∃ cause, answer = .error cause) ∨ answer = .ok ⟨[]⟩) ∧ s' = s.finish i) ∨
    (∃ i after tasks last, a = .respond i (.ok ⟨tasks⟩) ∧
      s.requests[i]? = some (.waiting after) ∧
      tasks = s.api.getChains after (some getChainsLimit) ∧ tasks.getLast? = some last ∧
      s' = { s with requests := s.requests.set i (.sending tasks last.id) }) ∨
    (∃ i t rest last, a = .send i ∧ s.requests[i]? = some (.sending (t :: rest) last) ∧
      s' = { s with
        channel := s.channel ++ [t]
        pushed := s.pushed ++ [t]
        requests := s.requests.set i
          (if rest = [] then .setting last else .sending rest last) }) ∨
    (∃ i last result, a = .setQueried i result ∧ s.requests[i]? = some (.setting last) ∧
      s' = (s.setLatestQueried last result).finish i) := by
  cases a <;> simp only [processTaskRequest] at hs <;> try contradiction
  case respond i answer =>
    split at hs
    · rename_i after cause hi
      cases hs
      exact Or.inl ⟨i, after, _, rfl, hi, Or.inl ⟨cause, rfl⟩, rfl⟩
    · rename_i after res hi
      obtain ⟨hans, hs⟩ := Option.ite_none_right_eq_some.1 hs
      split at hs <;> cases hs
      · rename_i hlast
        refine Or.inl ⟨i, after, _, rfl, hi, Or.inr ?_, rfl⟩
        obtain ⟨tasks⟩ := res
        have hnil : tasks = [] := List.getLast?_eq_none_iff.1 hlast
        rw [hnil]
      · rename_i last hlast
        exact Or.inr (Or.inl ⟨i, after, res.tasks, last, rfl, hi, hans, hlast, rfl⟩)
    · cases hs
  case send i =>
    split at hs <;> cases hs
    rename_i t rest last hi
    exact Or.inr (Or.inr (Or.inl ⟨i, t, rest, last, rfl, hi, rfl⟩))
  case setQueried i result =>
    split at hs <;> cases hs
    rename_i last hi
    exact Or.inr (Or.inr (Or.inr ⟨i, last, result, rfl, hi, rfl⟩))

/-- One step grows the listing, starts or crashes the component, or is one of its parties'. -/
theorem step_cases (hs : step getChainsLimit s a = some s') :
    (∃ task, ∃ h : task.id ∉ s.api.keys, s' = { s with api := s.api.push task h }) ∨
    (∃ result, a = .start result ∧ s.running = false ∧ s' = startProcess s result) ∨
    (a = .crash ∧ s' = s.crash) ∨ internal s a = some s' ∨
    processTaskRequest getChainsLimit s a = some s' ∨ consume s a = some s' := by
  cases a with
  | listTask task =>
    obtain ⟨api, hapi, rfl⟩ := Option.map_eq_some_iff.1 hs
    obtain ⟨h, rfl⟩ := Feed.push?_eq_some.1 hapi
    exact Or.inl ⟨task, h, rfl⟩
  | start result =>
    obtain ⟨hrun, hs⟩ := Option.ite_none_left_eq_some.1 hs
    exact Or.inr (Or.inl ⟨result, rfl, by simpa using hrun, (Option.some.inj hs).symm⟩)
  | crash => exact Or.inr (Or.inr (Or.inl ⟨rfl, (Option.some.inj hs).symm⟩))
  | tick | readProcessed | readQueried built =>
    exact Or.inr (Or.inr (Or.inr (Or.inl hs)))
  | respond i answer | send i | setQueried i result =>
    exact Or.inr (Or.inr (Or.inr (Or.inr (Or.inl hs))))
  | take | handle | record result =>
    exact Or.inr (Or.inr (Or.inr (Or.inr (Or.inr hs))))

end Cases

/-! ### A component that is not running -/

/-- Nothing is in memory. -/
structure Stopped (s : State) : Prop where
  poll : s.poll = .idle
  requests : s.requests = []
  channel : s.channel = []
  downstream : s.downstream = .idle

/-- The parties move only while the component is running, and keep it running. -/
theorem running_of_moved (getChainsLimit : UInt8) {s s' : State} {a : Action}
    (h : s.running = false → Stopped s)
    (hs : internal s a = some s' ∨ processTaskRequest getChainsLimit s a = some s' ∨
      consume s a = some s') : s.running = true ∧ s'.running = true := by
  have hrun : s.running = true := by
    by_contra hno
    obtain ⟨hpoll, hreq, hch, hd⟩ := h (by simpa using hno)
    rcases hs with hs | hs | hs
    · exact (internal_cases hs).1.elim hno fun hne => hne hpoll
    · rcases processTaskRequest_cases hs with ⟨i, _, _, -, hi, -⟩ | ⟨i, _, _, _, -, hi, -⟩ |
        ⟨i, _, _, _, -, hi, -⟩ | ⟨i, _, _, -, hi, -⟩ <;> simp [hreq] at hi
    · cases a <;> simp [consume, hch, hd] at hs
  refine ⟨hrun, ?_⟩
  rcases hs with hs | hs | hs
  · obtain ⟨-, ⟨p, -, rfl⟩ | ⟨-, -, rfl⟩⟩ := internal_cases hs <;> exact hrun
  · rcases processTaskRequest_cases hs with ⟨_, _, _, -, -, -, rfl⟩ |
      ⟨_, _, _, _, -, -, -, -, rfl⟩ | ⟨_, _, _, _, -, -, rfl⟩ | ⟨_, _, _, -, -, rfl⟩ <;> exact hrun
  · cases a <;> simp only [consume] at hs <;> try contradiction
    all_goals split at hs <;> cases hs <;> exact hrun

theorem stopped_boot (api : TaskFeed) (processed queried : Option TaskItemId) :
    Stopped (boot api processed queried) := ⟨rfl, rfl, rfl, rfl⟩

theorem stopped_crash (s : State) : Stopped s.crash := ⟨rfl, rfl, rfl, rfl⟩

/-- A start that fails leaves nothing in memory, and so does a crash. -/
theorem stopped_step {getChainsLimit : UInt8} {s s' : State} {a : Action}
    (h : s.running = false → Stopped s) (hs : step getChainsLimit s a = some s') :
    s'.running = false → Stopped s' := by
  intro hrun
  rcases step_cases hs with ⟨t, ht, rfl⟩ | ⟨result, -, hno, rfl⟩ | ⟨-, rfl⟩ | hs | hs | hs
  · exact ⟨(h hrun).poll, (h hrun).requests, (h hrun).channel, (h hrun).downstream⟩
  · unfold startProcess at hrun ⊢
    split
    · exact ⟨(h hno).poll, (h hno).requests, (h hno).channel, (h hno).downstream⟩
    · exact ⟨(h hno).poll, (h hno).requests, (h hno).channel, (h hno).downstream⟩
  · exact stopped_crash s
  · rw [(running_of_moved getChainsLimit h (Or.inl hs)).2] at hrun
    cases hrun
  · rw [(running_of_moved getChainsLimit h (Or.inr (Or.inl hs))).2] at hrun
    cases hrun
  · rw [(running_of_moved getChainsLimit h (Or.inr (Or.inr hs))).2] at hrun
    cases hrun

end FromAmplifier
end RelayerCore
