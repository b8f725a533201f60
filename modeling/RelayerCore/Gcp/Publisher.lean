import RelayerCore.Gcp.KvStore
import RelayerCore.Queue.Publish

/-!
# The Pub/Sub publishers and their counters (`infrastructure/src/gcp/publisher.rs`)

`publish` and `publish_batch` compute `res` in a block, record an error if `res` is one, and return
it.  Every failure inside the block is a question mark or a `return`, which leaves the function and
not the block.  `check_health` ends its block in a result without a question mark.

What Pub/Sub and Redis answer is given with each call.  The durations are left out.
-/

namespace RelayerCore

open Body Machine
open GcpConsumer (PubsubMessage MSG_ID)
open Queue (MessageContent PublishMessage envelope)

/-- The tracing context of each message, and what Pub/Sub answers: to a message, and through the
handles of a batch. -/
structure Pubsub where
  context : ℕ → List (String × String)
  publish : PubsubMessage → Except Status String
  publishBulk : List PubsubMessage → List (Except Status String)

/-- `to_pubsub_message`; the encoding may fail. -/
def toPubsubMessage {T : Type} (toVec : MessageContent T → Except IoError (List UInt8))
    (context : List (String × String)) (msg : PublishMessage T) :
    Except GcpError PubsubMessage := do
  let encoded ← (toVec (envelope context msg)).mapError .serialize
  return { data := encoded, attributes := [(MSG_ID, msg.deduplicationId)] }

/-- With an encoding that cannot fail, it is the conversion the consumer reads back. -/
theorem toPubsubMessage_codec {T : Type} (c : Codec T) (context : List (String × String))
    (msg : PublishMessage T) :
    toPubsubMessage (fun content => .ok ((MessageContent.borsh c).serialize content)) context msg =
      .ok (Queue.toPubsubMessage c context msg) := rfl

/-! ### The publisher -/

namespace GcpPublisher

/-- `Metrics`: what has been added to each counter. -/
structure Metrics where
  published : ℕ
  errorRaised : ℕ
  deriving DecidableEq

namespace Metrics

def new : Metrics := ⟨0, 0⟩

def recordPublish (self : Metrics) : Metrics := { self with published := self.published + 1 }

def recordError (self : Metrics) : Metrics := { self with errorRaised := self.errorRaised + 1 }

end Metrics

variable {T : Type} (toVec : MessageContent T → Except IoError (List UInt8)) (pubsub : Pubsub)

/-- The block of `publish`. -/
def publish.res (msg : PublishMessage T) :
    Body Metrics (Except GcpError String) (Except GcpError String) := do
  let msg ← question (toPubsubMessage toVec (pubsub.context 0) msg)
  let result ← question ((pubsub.publish msg).mapError .publish)
  act Metrics.recordPublish
  return .ok result

def publish (msg : PublishMessage T) : Effect Metrics (Except GcpError String) := call do
  let res ← publish.res toVec pubsub msg
  recordErr Metrics.recordError res

/-- The messages of a batch, up to the first that cannot be encoded. -/
def toBulk (batch : List (PublishMessage T)) : Except GcpError (List PubsubMessage) :=
  batch.zipIdx.mapM fun msg => toPubsubMessage toVec (pubsub.context msg.2) msg.1

/-- The loop over the handles. -/
def awaitHandles : List (Except Status String) → List String →
    Body Metrics (Except GcpError (List String)) (List String)
  | [], output => pure output
  | handle :: publishHandles, output => do
    let res ← question (handle.mapError .publish)
    act Metrics.recordPublish
    awaitHandles publishHandles (output ++ [res])

/-- The block of `publish_batch`. -/
def publishBatch.res (batch : List (PublishMessage T)) :
    Body Metrics (Except GcpError (List String)) (Except GcpError (List String)) := do
  let bulk ← question (toBulk toVec pubsub batch)
  let output ← awaitHandles (pubsub.publishBulk bulk) []
  return .ok output

def publishBatch (batch : List (PublishMessage T)) :
    Effect Metrics (Except GcpError (List String)) := call do
  if batch.isEmpty then
    ret (.ok [])
  let res ← publishBatch.res toVec pubsub batch
  recordErr Metrics.recordError res

def checkHealth : Effect Metrics (Except GcpError Unit) := call (pure (.ok ()))

/-! ### What counts as an error -/

section Errors

variable {toVec : MessageContent T → Except IoError (List UInt8)} {pubsub : Pubsub} (s : Metrics)

/-- Nothing records an error of `publish`. -/
theorem publish_eq_call_res (msg : PublishMessage T) :
    publish toVec pubsub msg = call (publish.res toVec pubsub msg) :=
  EndsOk.recordErr_eq <| endsOk_bind fun _ => endsOk_bind fun result => endsOk_bind fun _ =>
    endsOk_ok result

theorem publish_errorRaised (msg : PublishMessage T) :
    (publish toVec pubsub msg s).2.errorRaised = s.errorRaised := by
  rw [publish_eq_call_res]
  refine Keeps.call (.bind (keeps_question _) fun _ => .bind (keeps_question _) fun _ => ?_) s
  exact .bind (keeps_act fun _ => rfl) fun _ => keeps_pure _

theorem publishBatch_nil : publishBatch toVec pubsub [] s = (.ok [], s) := rfl

/-- Nothing records an error of `publish_batch`. -/
theorem publishBatch_eq_call_res {batch : List (PublishMessage T)} (h : batch ≠ []) :
    publishBatch toVec pubsub batch = call (publishBatch.res toVec pubsub batch) := by
  have hblock : EndsOk (publishBatch.res toVec pubsub batch) :=
    endsOk_bind fun _ => endsOk_bind fun output => endsOk_ok output
  rw [← hblock.recordErr_eq]
  cases batch with
  | nil => exact absurd rfl h
  | cons msg batch => rfl

theorem keeps_awaitHandles (publishHandles : List (Except Status String)) (output : List String) :
    Keeps Metrics.errorRaised (awaitHandles publishHandles output) := by
  induction publishHandles generalizing output with
  | nil => exact keeps_pure output
  | cons handle publishHandles ih =>
    refine .bind (keeps_question _) fun res => ?_
    exact .bind (keeps_act fun _ => rfl) fun _ => ih _

theorem publishBatch_errorRaised (batch : List (PublishMessage T)) :
    (publishBatch toVec pubsub batch s).2.errorRaised = s.errorRaised := by
  by_cases h : batch = []
  · rw [h, publishBatch_nil]
  · rw [publishBatch_eq_call_res h]
    refine Keeps.call (.bind (keeps_question _) fun bulk => ?_) s
    exact .bind (keeps_awaitHandles _ _) fun _ => keeps_pure _

end Errors

/-! ### When a call succeeds -/

/-- The message can be encoded, and Pub/Sub confirms it. -/
def Confirmed (msg : PublishMessage T) : Prop :=
  ∃ encoded, toPubsubMessage toVec (pubsub.context 0) msg = .ok encoded ∧
    isErr (pubsub.publish encoded) = false

/-- Every message can be encoded, and every handle resolves to `Ok`; so it is with no messages. -/
def BatchConfirmed (batch : List (PublishMessage T)) : Prop :=
  batch ≠ [] → ∃ bulk, toBulk toVec pubsub batch = .ok bulk ∧
    ∀ handle ∈ pubsub.publishBulk bulk, isErr handle = false

variable {toVec pubsub} (s : Metrics)

theorem isErr_publish (msg : PublishMessage T) :
    isErr (publish toVec pubsub msg s).1 = false ↔ Confirmed toVec pubsub msg := by
  rw [publish_eq_call_res]
  unfold publish.res Confirmed
  rw [isErr_call_question_bind]
  refine exists_congr fun encoded => and_congr_right fun _ => ?_
  rw [call_question_mapError_bind]
  cases pubsub.publish encoded with
  | error status => simp
  | ok result => exact iff_of_true rfl rfl

/-- The loop ends unless a handle resolves to an error. -/
theorem isErr_awaitHandles (publishHandles : List (Except Status String)) (output : List String) :
    isErr (call (do
        let output ← awaitHandles publishHandles output
        return .ok output) s).1 = false ↔
      ∀ handle ∈ publishHandles, isErr handle = false := by
  induction publishHandles generalizing output s with
  | nil => simp [awaitHandles]
  | cons handle publishHandles ih =>
    rw [awaitHandles, bind_assoc, call_question_mapError_bind, List.forall_mem_cons]
    cases handle with
    | error status => simp
    | ok res =>
      rw [isErr_ok, ← ih s.recordPublish (output ++ [res])]
      simp

theorem isErr_publishBatch (batch : List (PublishMessage T)) :
    isErr (publishBatch toVec pubsub batch s).1 = false ↔ BatchConfirmed toVec pubsub batch := by
  by_cases h : batch = []
  · subst h
    simp [publishBatch_nil, BatchConfirmed]
  · rw [publishBatch_eq_call_res h]
    unfold publishBatch.res
    rw [isErr_call_question_bind]
    simp only [isErr_awaitHandles, BatchConfirmed, ne_eq, h, not_false_eq_true, forall_const]

end GcpPublisher

/-! ### The publisher that remembers the last message -/

/-- `QueueMsgId`, with the conversions of the messages and of their ids. -/
structure QueueMsg (T MessageId : Type) where
  id : T → MessageId
  toVec : MessageContent T → Except IoError (List UInt8)
  messageId : Stored MessageId

namespace PeekableGcpPublisher

/-- The counters of the publisher and of its store. -/
structure Metrics where
  publisher : GcpPublisher.Metrics
  lastMessageIdStore : RedisClient.Metrics
  deriving DecidableEq

namespace Metrics

def new : Metrics := ⟨.new, .new⟩

/-- `self.publisher.metrics.record_error()`. -/
def recordError (self : Metrics) : Metrics := { self with publisher := self.publisher.recordError }

/-- The counter the publisher's errors add to. -/
def errorRaised (self : Metrics) : ℕ := self.publisher.errorRaised

end Metrics

/-- A call of `self.publisher`. -/
def onPublisher {α : Type} (f : Effect GcpPublisher.Metrics α) : Effect Metrics α :=
  f.zoom Metrics.publisher fun metrics publisher => { metrics with publisher }

/-- A call of `self.last_message_id_store`. -/
def onStore {α : Type} (f : Effect RedisClient.Metrics α) : Effect Metrics α :=
  f.zoom Metrics.lastMessageIdStore fun metrics lastMessageIdStore =>
    { metrics with lastMessageIdStore }

variable {T MessageId : Type} (queueMsg : QueueMsg T MessageId) (pubsub : Pubsub) (redis : Redis)

/-- The block of `publish`. -/
def publish.res (msg : PublishMessage T) (msgId : MessageId) :
    Body Metrics (Except GcpError String) (Except GcpError String) := do
  let published ← question
    (← perform (onPublisher (GcpPublisher.publish queueMsg.toVec pubsub msg)))
  question (← perform (onStore (RedisClient.upsert queueMsg.messageId redis msgId)))
  return .ok published

def publish (msg : PublishMessage T) : Effect Metrics (Except GcpError String) := call do
  let msgId := queueMsg.id msg.data
  let res ← publish.res queueMsg pubsub redis msg msgId
  recordErr Metrics.recordError res

/-- The block of `publish_batch`. -/
def publishBatch.res (batch : List (PublishMessage T)) :
    Body Metrics (Except GcpError (List String)) (Except GcpError (List String)) := do
  let some lastMsg := batch.getLast? | ret (.error .noMsgToPublish)
  let lastMsgId := queueMsg.id lastMsg.data
  let published ← question
    (← perform (onPublisher (GcpPublisher.publishBatch queueMsg.toVec pubsub batch)))
  question (← perform (onStore (RedisClient.upsert queueMsg.messageId redis lastMsgId)))
  return .ok published

def publishBatch (batch : List (PublishMessage T)) :
    Effect Metrics (Except GcpError (List String)) := call do
  let res ← publishBatch.res queueMsg pubsub redis batch
  recordErr Metrics.recordError res

/-- The block of `check_health`. -/
def checkHealth.res : Body Metrics (Except GcpError Unit) (Except GcpError Unit) := do
  question (← perform (onPublisher GcpPublisher.checkHealth))
  let pong ← perform (onStore (RedisClient.ping redis))
  return pong.mapError .redisPing

def checkHealth : Effect Metrics (Except GcpError Unit) := call do
  let res ← checkHealth.res redis
  recordErr Metrics.recordError res

def peekLast : Effect Metrics (Except GcpError (Option MessageId)) := call do
  let value ← question
    (← recordErr Metrics.recordError
      (← perform (onStore (RedisClient.get queueMsg.messageId redis))))
  return .ok (value.map WithRevision.value)

/-! ### What counts as an error -/

section Errors

variable {queueMsg : QueueMsg T MessageId} {pubsub : Pubsub} {redis : Redis} (s : Metrics)

/-- Nothing records an error of `publish`. -/
theorem publish_eq_call_res (msg : PublishMessage T) : publish queueMsg pubsub redis msg =
    call (publish.res queueMsg pubsub redis msg (queueMsg.id msg.data)) :=
  EndsOk.recordErr_eq <| endsOk_bind fun _ => endsOk_bind fun published => endsOk_bind fun _ =>
    endsOk_bind fun _ => endsOk_ok published

/-- Nothing records an error of `publish_batch`. -/
theorem publishBatch_eq_call_res (batch : List (PublishMessage T)) :
    publishBatch queueMsg pubsub redis batch =
      call (publishBatch.res queueMsg pubsub redis batch) := by
  refine EndsOk.recordErr_eq ?_
  unfold publishBatch.res
  cases batch.getLast? with
  | none => exact endsOk_ret _
  | some lastMsg =>
    exact endsOk_bind fun _ => endsOk_bind fun published => endsOk_bind fun _ =>
      endsOk_bind fun _ => endsOk_ok published

/-- What `publish` and `publish_batch` do with the id of the last message. -/
theorem keeps_save {α : Type} (msgId : MessageId) (published : α) :
    Keeps Metrics.errorRaised (do
      question (← perform (onStore (RedisClient.upsert queueMsg.messageId redis msgId)))
      return .ok published : Body Metrics (Except GcpError α) (Except GcpError α)) := by
  refine .bind (keeps_perform fun _ => rfl) fun res => ?_
  exact .bind (keeps_question _) fun _ => keeps_pure _

theorem publish_errorRaised (msg : PublishMessage T) :
    (publish queueMsg pubsub redis msg s).2.errorRaised = s.errorRaised := by
  rw [publish_eq_call_res]
  refine Keeps.call (.bind (keeps_perform fun s => ?_) fun res => ?_) s
  · exact GcpPublisher.publish_errorRaised s.publisher msg
  · exact .bind (keeps_question _) fun published => keeps_save _ published

theorem publishBatch_errorRaised (batch : List (PublishMessage T)) :
    (publishBatch queueMsg pubsub redis batch s).2.errorRaised = s.errorRaised := by
  rw [publishBatch_eq_call_res]
  refine Keeps.call ?_ s
  unfold publishBatch.res
  cases batch.getLast? with
  | none => exact keeps_ret _
  | some lastMsg =>
    refine .bind (keeps_perform fun s => ?_) fun res => ?_
    · exact GcpPublisher.publishBatch_errorRaised s.publisher batch
    · exact .bind (keeps_question _) fun published => keeps_save _ published

theorem errorRaised_lt_recordError : s.errorRaised < s.recordError.errorRaised :=
  Nat.lt_succ_self s.publisher.errorRaised

/-- The block of `check_health` ends in a result, and an error is recorded. -/
theorem truthful_checkHealth : Truthful Metrics.errorRaised (checkHealth redis) s := by
  have hblock : checkHealth redis = call (perform ((onStore (RedisClient.ping redis)).map
      (Except.mapError .redisPing)) >>= recordErr Metrics.recordError) := rfl
  rw [hblock]
  exact truthful_recordErr (fun _ => rfl) errorRaised_lt_recordError s

/-- The errors of `peek_last` are recorded before the question mark. -/
theorem truthful_peekLast : Truthful Metrics.errorRaised (peekLast queueMsg redis) s := by
  have hget : Truthful Metrics.errorRaised (call (perform (onStore
      (RedisClient.get queueMsg.messageId redis)) >>= recordErr Metrics.recordError)) s :=
    truthful_recordErr (fun _ => rfl) errorRaised_lt_recordError s
  unfold Truthful at hget ⊢
  rw [call_perform_recordErr] at hget
  unfold peekLast
  rw [call_perform_bind]
  cases h : (onStore (RedisClient.get queueMsg.messageId redis) s).1 with
  | ok value =>
    rw [h] at hget
    exact hget
  | error err =>
    rw [h] at hget
    exact hget

end Errors

/-! ### When a call succeeds -/

/-- The message is published, and its id is saved. -/
def Confirmed (msg : PublishMessage T) : Prop :=
  GcpPublisher.Confirmed queueMsg.toVec pubsub msg ∧
    RedisClient.Saved queueMsg.messageId redis (queueMsg.id msg.data)

/-- There are messages, all of them are published, and the id of the last one is saved. -/
def BatchConfirmed (batch : List (PublishMessage T)) : Prop :=
  ∃ lastMsg, batch.getLast? = some lastMsg ∧
    GcpPublisher.BatchConfirmed queueMsg.toVec pubsub batch ∧
    RedisClient.Saved queueMsg.messageId redis (queueMsg.id lastMsg.data)

variable {queueMsg pubsub redis} (s : Metrics)

theorem isErr_save {α : Type} (msgId : MessageId) (published : α) :
    isErr (call (do
        question (← perform (onStore (RedisClient.upsert queueMsg.messageId redis msgId)))
        return .ok published : Body Metrics (Except GcpError α) (Except GcpError α)) s).1 = false ↔
      RedisClient.Saved queueMsg.messageId redis msgId := by
  have hrest : ∀ (u : Unit) (s : Metrics), isErr (call (pure (.ok published) :
      Body Metrics (Except GcpError α) (Except GcpError α)) s).1 = false ↔ True :=
    fun _ _ => iff_of_true rfl trivial
  exact (isErr_call_perform_question_bind hrest s).trans
    ((iff_of_eq (and_true _)).trans (RedisClient.isErr_upsert s.lastMessageIdStore msgId))

theorem isErr_publish (msg : PublishMessage T) :
    isErr (publish queueMsg pubsub redis msg s).1 = false ↔
      Confirmed queueMsg pubsub redis msg := by
  rw [publish_eq_call_res]
  refine (isErr_call_perform_question_bind (fun published s => isErr_save s _ published) s).trans ?_
  exact and_congr_left' (GcpPublisher.isErr_publish s.publisher msg)

theorem isErr_publishBatch (batch : List (PublishMessage T)) :
    isErr (publishBatch queueMsg pubsub redis batch s).1 = false ↔
      BatchConfirmed queueMsg pubsub redis batch := by
  rw [publishBatch_eq_call_res]
  unfold publishBatch.res BatchConfirmed
  cases batch.getLast? with
  | none => simp
  | some lastMsg =>
    refine (isErr_call_perform_question_bind
      (fun published s => isErr_save s (queueMsg.id lastMsg.data) published) s).trans ?_
    refine (and_congr_left' (GcpPublisher.isErr_publishBatch s.publisher batch)).trans ?_
    simp only [Option.some.injEq, exists_eq_left']

end PeekableGcpPublisher
end RelayerCore
