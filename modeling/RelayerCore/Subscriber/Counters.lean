import RelayerCore.Gcp.Publisher
import RelayerCore.Subscriber.Subscribe
import RelayerCore.AmplifierApi.TxEvent

/-!
# The error counters of the subscriber and of the publishers
(`amplifier-subscriber/src/lib.rs`, `infrastructure/src/gcp/publisher.rs`)

`subscribe` has the shape of the publishers' functions: a block, left by question marks, and behind
it what records the errors the block ends in.  A system of a subscriber and two publishers makes
calls in any order, each with failures of its own; the counter of a component rises with the errors
it returns exactly as long as no call but `check_health` fails.
-/

namespace RelayerCore

open Body Machine
open Queue (MessageContent PublishMessage)

/-- `SimpleMetrics`: what has been added to the counter of errors. -/
structure SimpleMetrics where
  errorRaised : ℕ
  deriving DecidableEq

namespace SimpleMetrics

def new : SimpleMetrics := ⟨0⟩

def recordError (self : SimpleMetrics) : SimpleMetrics := ⟨self.errorRaised + 1⟩

end SimpleMetrics

/-- `PublishMessage::from`. -/
def PublishMessage.from (value : TaskItem) : PublishMessage TaskItem :=
  ⟨String.ofList value.id.hyphenated, value⟩

namespace Subscriber
namespace Counters

/-! ### The subscriber -/

/-- `Publisher<TaskItem> + PeekMessage<TaskItem>`, functions of the state of the publisher. -/
structure TaskQueuePublisher (σ ε Return : Type) where
  peekLast : Effect σ (Except ε (Option TaskItemId))
  publishBatch : List (PublishMessage TaskItem) → Effect σ (Except ε (List Return))

/-- What a call of `subscribe` works with: the subscriber's configuration and publisher, what
becomes of its request, the decoding of JSON, and a sort by timestamp. -/
structure Round (σ ε Return : Type) where
  chain : String
  limitItems : UInt8
  taskQueuePublisher : TaskQueuePublisher σ ε Return
  exchange : GetChains → Exchange
  fromSlice : List UInt8 → Option GetTasksResult
  fromSliceError : List UInt8 → Option ErrorResponse
  sort : List TaskItem → List TaskItem
  sorted : ∀ tasks, SortedByTimestamp tasks (sort tasks)

/-- The subscriber's counter and the state of its publisher. -/
structure State (σ : Type) where
  metrics : SimpleMetrics
  taskQueuePublisher : σ

section Subscribe

variable {σ ε Return : Type}

/-- A call of the publisher. -/
def onPublisher {α : Type} (f : Effect σ α) : Effect (State σ) α :=
  f.zoom State.taskQueuePublisher fun s taskQueuePublisher => { s with taskQueuePublisher }

def State.recordError (s : State σ) : State σ := { s with metrics := s.metrics.recordError }

variable (round : Round σ ε Return)

/-- The request for the tasks after the last one, and its answer. -/
def Round.response (lastTaskId : Option TaskItemId) : Except CallError GetTasksResult :=
  (round.exchange (getChainsRequest round.chain round.limitItems lastTaskId)).json round.fromSlice
    round.fromSliceError

/-- The block of `subscribe`. -/
def subscribe.res : Body (State σ) (Except Failure Unit) (Except Failure Unit) := do
  let peeked ← perform (onPublisher round.taskQueuePublisher.peekLast)
  let lastTaskId ← question (peeked.mapError fun _ => .peekLast)
  let response ← question ((round.response lastTaskId).mapError .call)
  let tasks := round.sort response.tasks
  if tasks.isEmpty then
    ret (.ok ())
  let batch := tasks.map PublishMessage.from
  let published ← perform (onPublisher (round.taskQueuePublisher.publishBatch batch))
  let _ ← question (published.mapError fun _ => .publishBatch)
  return .ok ()

def subscribe : Effect (State σ) (Except Failure Unit) := call do
  let res ← subscribe.res round
  recordErr State.recordError res

/-- The publisher tells the last task, the API answers, and there are no tasks or the publisher
takes them. -/
def Round.Succeeds (s : σ) : Prop :=
  ∃ lastTaskId, (round.taskQueuePublisher.peekLast s).1 = .ok lastTaskId ∧
    ∃ response, round.response lastTaskId = .ok response ∧
      (response.tasks ≠ [] → isErr (round.taskQueuePublisher.publishBatch
        ((round.sort response.tasks).map PublishMessage.from)
        (round.taskQueuePublisher.peekLast s).2).1 = false)

variable {round} (s : State σ)

/-- Nothing records an error of `subscribe`. -/
theorem subscribe_eq_call_res : subscribe round = call (subscribe.res round) := by
  refine EndsOk.recordErr_eq (endsOk_bind fun _ => endsOk_bind fun _ => endsOk_bind fun _ => ?_)
  dsimp only
  split_ifs
  · exact endsOk_ret (Except.ok ())
  · exact endsOk_bind fun _ => endsOk_bind fun _ => endsOk_ok ()

theorem sort_eq_nil (tasks : List TaskItem) : round.sort tasks = [] ↔ tasks = [] := by
  have hperm := (round.sorted tasks).1
  constructor
  · intro h
    rw [h] at hperm
    exact hperm.nil_eq.symm
  · rintro rfl
    exact hperm.eq_nil

theorem onPublisher_eq {α : Type} {f : Effect σ α} {a : α} {q : σ}
    (h : f s.taskQueuePublisher = (a, q)) :
    onPublisher f s = (a, { s with taskQueuePublisher := q }) := by
  simp [onPublisher, Effect.zoom, h]

/-- A round, up to the step it fails at. -/
theorem subscribe_eq : subscribe round s =
    match round.taskQueuePublisher.peekLast s.taskQueuePublisher with
    | (.error _, q) => (.error .peekLast, { s with taskQueuePublisher := q })
    | (.ok lastTaskId, q) =>
      match round.response lastTaskId with
      | .error cause => (.error (.call cause), { s with taskQueuePublisher := q })
      | .ok response =>
        if response.tasks = [] then (.ok (), { s with taskQueuePublisher := q })
        else
          match round.taskQueuePublisher.publishBatch
              ((round.sort response.tasks).map PublishMessage.from) q with
          | (.error _, q) => (.error .publishBatch, { s with taskQueuePublisher := q })
          | (.ok _, q) => (.ok (), { s with taskQueuePublisher := q }) := by
  rw [subscribe_eq_call_res]
  unfold subscribe.res
  rw [call_perform_bind]
  rcases hpeek : round.taskQueuePublisher.peekLast s.taskQueuePublisher with ⟨peeked, q⟩
  rw [onPublisher_eq s hpeek, call_question_mapError_bind]
  cases peeked with
  | error err => rfl
  | ok lastTaskId =>
    dsimp only
    rw [call_question_mapError_bind]
    cases round.response lastTaskId with
    | error cause => rfl
    | ok response =>
      have hempty : (round.sort response.tasks).isEmpty = true ↔ response.tasks = [] :=
        List.isEmpty_iff.trans (sort_eq_nil _)
      dsimp only
      by_cases h : response.tasks = []
      · rw [if_pos (hempty.mpr h), if_pos h]
        rfl
      · rw [if_neg fun he => h (hempty.mp he), if_neg h, call_perform_bind]
        rcases hpublish : round.taskQueuePublisher.publishBatch
          ((round.sort response.tasks).map PublishMessage.from) q with ⟨published, q'⟩
        rw [onPublisher_eq _ hpublish, call_question_mapError_bind]
        cases published <;> rfl

theorem subscribe_errorRaised :
    (subscribe round s).2.metrics.errorRaised = s.metrics.errorRaised := by
  rw [subscribe_eq]
  split
  · rfl
  · split
    · rfl
    · split_ifs
      · rfl
      · split <;> rfl

theorem isErr_subscribe : isErr (subscribe round s).1 = false ↔
    round.Succeeds s.taskQueuePublisher := by
  rw [subscribe_eq]
  unfold Round.Succeeds
  obtain ⟨peeked, q⟩ := round.taskQueuePublisher.peekLast s.taskQueuePublisher
  cases peeked with
  | error err => simp
  | ok lastTaskId =>
    simp only [Except.ok.injEq, exists_eq_left']
    cases round.response lastTaskId with
    | error cause => simp
    | ok response =>
      simp only [Except.ok.injEq, exists_eq_left']
      by_cases h : response.tasks = []
      · simp [h]
      · rw [if_neg h, forall_prop_of_true h]
        obtain ⟨published, q'⟩ := round.taskQueuePublisher.publishBatch
          ((round.sort response.tasks).map PublishMessage.from) q
        cases published <;> rfl

end Subscribe

/-! ### Over Pub/Sub and Redis -/

/-- The publisher to Pub/Sub as the queue of the subscriber. -/
def gcpTaskQueuePublisher (queueMsg : QueueMsg TaskItem TaskItemId) (pubsub : Pubsub)
    (redis : Redis) : TaskQueuePublisher PeekableGcpPublisher.Metrics GcpError String where
  peekLast := PeekableGcpPublisher.peekLast queueMsg redis
  publishBatch := PeekableGcpPublisher.publishBatch queueMsg pubsub redis

/-- The errors that the counters of the subscriber and of its publisher have recorded. -/
def State.errorRaised (s : State PeekableGcpPublisher.Metrics) : ℕ :=
  s.metrics.errorRaised + s.taskQueuePublisher.errorRaised

/-- Of all the errors a round over Pub/Sub can end in, only that of asking Redis for the last task
is recorded, by the publisher. -/
theorem recorded_iff_peekLast {queueMsg : QueueMsg TaskItem TaskItemId} {pubsub : Pubsub}
    {redis : Redis} {round : Round PeekableGcpPublisher.Metrics GcpError String}
    (h : round.taskQueuePublisher = gcpTaskQueuePublisher queueMsg pubsub redis)
    (s : State PeekableGcpPublisher.Metrics) :
    s.errorRaised < (subscribe round s).2.errorRaised ↔
      (subscribe round s).1 = .error .peekLast := by
  have hpeek : Truthful PeekableGcpPublisher.Metrics.errorRaised
      (PeekableGcpPublisher.peekLast queueMsg redis) s.taskQueuePublisher :=
    PeekableGcpPublisher.truthful_peekLast s.taskQueuePublisher
  have hpublish : ∀ batch q,
      (PeekableGcpPublisher.publishBatch queueMsg pubsub redis batch q).2.errorRaised =
        q.errorRaised := fun batch q => PeekableGcpPublisher.publishBatch_errorRaised q batch
  unfold Truthful at hpeek
  rw [subscribe_eq, h]
  unfold gcpTaskQueuePublisher State.errorRaised
  dsimp only
  rcases heq : PeekableGcpPublisher.peekLast queueMsg redis s.taskQueuePublisher with ⟨peeked, q⟩
  rw [heq] at hpeek
  cases peeked with
  | error err => simpa using hpeek
  | ok lastTaskId =>
    -- what comes after the answer of Redis records nothing
    have hkept : ¬ s.taskQueuePublisher.errorRaised < q.errorRaised := by simpa using hpeek
    dsimp only
    cases round.response lastTaskId with
    | error cause => simpa using hkept
    | ok response =>
      dsimp only
      by_cases htasks : response.tasks = []
      · simpa [htasks] using hkept
      · have hbatch := hpublish ((round.sort response.tasks).map PublishMessage.from) q
        rw [if_neg htasks]
        rcases heq : PeekableGcpPublisher.publishBatch queueMsg pubsub redis
          ((round.sort response.tasks).map PublishMessage.from) q with ⟨published, q'⟩
        rw [heq] at hbatch
        rw [← hbatch] at hkept
        cases published <;> simpa using hkept

/-! ### A subscriber and two publishers -/

/-- The counters of the publishers, and the state of the subscriber's queue, which may be one of
the publishers or one of its own. -/
structure Publishers (Q : Type) where
  publisher : GcpPublisher.Metrics
  peekable : PeekableGcpPublisher.Metrics
  queue : Q

/-- The subscriber, and what its rounds act on. -/
abbrev System (Q : Type) := State (Publishers Q)

/-- A call of one of the components, with what it works with. -/
inductive Call (T U MessageId Q ε Return : Type)
  | subscribe (round : Round (Publishers Q) ε Return)
  | publish (toVec : MessageContent T → Except IoError (List UInt8)) (pubsub : Pubsub)
      (msg : PublishMessage T)
  | publishBatch (toVec : MessageContent T → Except IoError (List UInt8)) (pubsub : Pubsub)
      (batch : List (PublishMessage T))
  | peekablePublish (queueMsg : QueueMsg U MessageId) (pubsub : Pubsub) (redis : Redis)
      (msg : PublishMessage U)
  | peekablePublishBatch (queueMsg : QueueMsg U MessageId) (pubsub : Pubsub) (redis : Redis)
      (batch : List (PublishMessage U))
  | peekableCheckHealth (redis : Redis)

section System

variable {T U MessageId Q ε Return α : Type}

/-- A call of the publisher. -/
def onGcpPublisher (f : Effect GcpPublisher.Metrics α) : Effect (System Q) α :=
  onPublisher (f.zoom Publishers.publisher fun s publisher => { s with publisher })

/-- A call of the publisher that remembers the last message. -/
def onPeekable (f : Effect PeekableGcpPublisher.Metrics α) : Effect (System Q) α :=
  onPublisher (f.zoom Publishers.peekable fun s peekable => { s with peekable })

namespace Call

/-- Whether the call returned `Err`, and the system it leaves. -/
def exec : Call T U MessageId Q ε Return → Effect (System Q) Bool
  | .subscribe round => (Counters.subscribe round).map isErr
  | .publish toVec pubsub msg => (onGcpPublisher (GcpPublisher.publish toVec pubsub msg)).map isErr
  | .publishBatch toVec pubsub batch =>
    (onGcpPublisher (GcpPublisher.publishBatch toVec pubsub batch)).map isErr
  | .peekablePublish queueMsg pubsub redis msg =>
    (onPeekable (PeekableGcpPublisher.publish queueMsg pubsub redis msg)).map isErr
  | .peekablePublishBatch queueMsg pubsub redis batch =>
    (onPeekable (PeekableGcpPublisher.publishBatch queueMsg pubsub redis batch)).map isErr
  | .peekableCheckHealth redis => (onPeekable (PeekableGcpPublisher.checkHealth redis)).map isErr

/-- The error counter of the component that is called. -/
def errorRaised : Call T U MessageId Q ε Return → System Q → ℕ
  | .subscribe _ => fun s => s.metrics.errorRaised
  | .publish .. | .publishBatch .. => fun s => s.taskQueuePublisher.publisher.errorRaised
  | .peekablePublish .. | .peekablePublishBatch .. | .peekableCheckHealth _ =>
    fun s => s.taskQueuePublisher.peekable.errorRaised

/-- The counter of the component rises during the call exactly if the call returns `Err`. -/
def Counted (call : Call T U MessageId Q ε Return) (s : System Q) : Prop :=
  call.errorRaised s < call.errorRaised (call.exec s).2 ↔ (call.exec s).1 = true

/-- The call is `check_health`, or none of its steps fails. -/
def Smooth : Call T U MessageId Q ε Return → System Q → Prop
  | .subscribe round => fun s => round.Succeeds s.taskQueuePublisher
  | .publish toVec pubsub msg => fun _ => GcpPublisher.Confirmed toVec pubsub msg
  | .publishBatch toVec pubsub batch => fun _ => GcpPublisher.BatchConfirmed toVec pubsub batch
  | .peekablePublish queueMsg pubsub redis msg =>
    fun _ => PeekableGcpPublisher.Confirmed queueMsg pubsub redis msg
  | .peekablePublishBatch queueMsg pubsub redis batch =>
    fun _ => PeekableGcpPublisher.BatchConfirmed queueMsg pubsub redis batch
  | .peekableCheckHealth _ => fun _ => True

theorem counted_iff (call : Call T U MessageId Q ε Return) (s : System Q) :
    call.Counted s ↔ call.Smooth s := by
  cases call with
  | subscribe round =>
    exact (truthful_iff_of_keeps (subscribe_errorRaised s)).trans (isErr_subscribe s)
  | publish toVec pubsub msg =>
    exact (truthful_iff_of_keeps (GcpPublisher.publish_errorRaised _ msg)).trans
      (GcpPublisher.isErr_publish s.taskQueuePublisher.publisher msg)
  | publishBatch toVec pubsub batch =>
    exact (truthful_iff_of_keeps (GcpPublisher.publishBatch_errorRaised _ batch)).trans
      (GcpPublisher.isErr_publishBatch s.taskQueuePublisher.publisher batch)
  | peekablePublish queueMsg pubsub redis msg =>
    exact (truthful_iff_of_keeps (PeekableGcpPublisher.publish_errorRaised _ msg)).trans
      (PeekableGcpPublisher.isErr_publish s.taskQueuePublisher.peekable msg)
  | peekablePublishBatch queueMsg pubsub redis batch =>
    exact (truthful_iff_of_keeps (PeekableGcpPublisher.publishBatch_errorRaised _ batch)).trans
      (PeekableGcpPublisher.isErr_publishBatch s.taskQueuePublisher.peekable batch)
  | peekableCheckHealth redis =>
    exact iff_of_true (PeekableGcpPublisher.truthful_checkHealth s.taskQueuePublisher.peekable)
      trivial

end Call

/-- The system after a call. -/
def step (s : System Q) (call : Call T U MessageId Q ε Return) : System Q := (call.exec s).2

/-- In a run of calls, with any failures, the counters rise with the errors that are returned
exactly when no call but `check_health` fails at anything. -/
theorem error_counters_truthful_iff (s : System Q) (calls : List (Call T U MessageId Q ε Return)) :
    Along step (fun s call => call.Counted s) s calls ↔
      Along step (fun s call => call.Smooth s) s calls :=
  along_congr (fun s call => call.counted_iff s) s calls

/-- Pub/Sub out of reach. -/
def unavailable : Pubsub where
  context _ := []
  publish _ := .error ⟨"unavailable"⟩
  publishBulk msgs := msgs.map fun _ => .error ⟨"unavailable"⟩

/-- A message that Pub/Sub does not confirm. -/
def unconfirmed : Call Unit Unit Unit Unit Unit Unit :=
  .publish (fun _ => .ok []) unavailable ⟨"0x1f-0", ()⟩

/-- Nothing has happened yet. -/
def start : System Unit := ⟨.new, ⟨.new, .new, ()⟩⟩

/-- A message that is not confirmed is an error, and counts as none. -/
theorem unconfirmed_publish_not_counted :
    ¬ Along step (fun s call => call.Counted s) start [unconfirmed] ∧
      (unconfirmed.exec start).1 = true ∧
      unconfirmed.errorRaised (unconfirmed.exec start).2 = 0 := by
  refine ⟨fun h => ?_, rfl, rfl⟩
  have hlt : 0 < 0 := h.1.mpr rfl
  omega

end System

end Counters
end Subscriber
end RelayerCore
