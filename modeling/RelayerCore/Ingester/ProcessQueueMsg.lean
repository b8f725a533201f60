import RelayerCore.AmplifierApi.Client

/-!
# One queue message of the ingester (`Ingester::process_queue_msg`)

The event of the message is posted to the API alone, so that it has index `0` in the answer's
list of results.  The outcome of the call decides the kind of acknowledgement; the list of results
inside a successful answer is decoded but not looked at.
-/

namespace RelayerCore

/-- `AckKind`: the answers of an application to its queue. -/
inductive AckKind
  | ack
  | nak
  | progress
  deriving DecidableEq

namespace Ingester

/-- An error with the message it was wrapped in. -/
structure Report where
  wrap : String
  cause : CallError
  deriving DecidableEq

/-- The messages `process_queue_msg` wraps the failures of its call in. -/
def wrapErr (cause : CallError) : Report where
  wrap := match cause with
    | .build _ => "could not build amplifier request"
    | .send _ => "could not send amplifier request"
    | .json _ => "amplifier api failed"
    | .response _ => "failed to decode response"
  cause := cause

/-- What one call did: the acknowledgement it sent and the errors it counted. -/
structure Processed where
  sent : AckKind
  errors : ℕ
  deriving DecidableEq

section Decoding

variable (fromSlice : List UInt8 → Option PublishEventsResult)
  (fromSliceError : List UInt8 → Option ErrorResponse)

/-- The block that posts the event: every failure up to the decoding of the answer is a report,
and a decoded answer is a success whatever it says about the event. -/
def postEvent (exchange : Exchange) : Except Report Unit :=
  match exchange.json fromSlice fromSliceError with
  | .error cause => .error (wrapErr cause)
  | .ok _results => .ok ()

/-- The request of a message. -/
def postEventsRequest (chain : String) (event : Event) : PostEvents :=
  { chain := .new chain, payload := ⟨[event]⟩ }

/-- `Ingester::process_queue_msg`: `client` is what becomes of a request, `acked` whether the queue
takes an acknowledgement. -/
def processQueueMsg (chain : String) (client : PostEvents → Exchange) (acked : AckKind → Bool)
    (event : Event) : Processed :=
  match postEvent fromSlice fromSliceError (client (postEventsRequest chain event)) with
  | .ok () => { sent := .ack, errors := if acked .ack then 0 else 1 }
  | .error _ => { sent := .nak, errors := if acked .nak then 1 else 2 }

/-! ### What the answer says about the event -/

/-- The result reports the event as accepted, or as an error not to be tried again. -/
def settling : PublishEventResultItem → Bool
  | .accepted result => result.base.index == 0
  | .error result => result.base.index == 0 && !result.retriable

/-- The list of results of an answer that is a success and decodes. -/
def resultsOf (exchange : Exchange) : Option PublishEventsResult :=
  (exchange.json fromSlice fromSliceError).toOption

/-- The API reported the posted event as accepted or finally rejected. -/
def reportsSettled (exchange : Exchange) : Bool :=
  ((resultsOf fromSlice fromSliceError exchange).map fun r => r.results.any settling).getD false

/-- An answer that is a success settles the event. -/
def conclusive (exchange : Exchange) : Bool :=
  ((resultsOf fromSlice fromSliceError exchange).map fun r => r.results.any settling).getD true

/-- The acknowledgement that never drops an unsettled event. -/
def dueAck (exchange : Exchange) : AckKind :=
  if reportsSettled fromSlice fromSliceError exchange then .ack else .nak

variable {fromSlice fromSliceError}

theorem postEvent_ok_iff {exchange : Exchange} :
    postEvent fromSlice fromSliceError exchange = .ok () ↔
      ∃ r, resultsOf fromSlice fromSliceError exchange = some r := by
  unfold postEvent resultsOf
  cases exchange.json fromSlice fromSliceError <;> simp [Except.toOption]

/-- The acknowledgement sent says only whether the call went through and its answer decoded. -/
theorem processQueueMsg_sent (chain : String) (client : PostEvents → Exchange)
    (acked : AckKind → Bool) (event : Event) :
    (processQueueMsg fromSlice fromSliceError chain client acked event).sent =
      if (resultsOf fromSlice fromSliceError (client (postEventsRequest chain event))).isSome
      then .ack else .nak := by
  have hok := @postEvent_ok_iff fromSlice fromSliceError (client (postEventsRequest chain event))
  unfold processQueueMsg
  cases hr : resultsOf fromSlice fromSliceError (client (postEventsRequest chain event)) with
  | none =>
    rw [hr] at hok
    cases hp : postEvent fromSlice fromSliceError (client (postEventsRequest chain event)) with
    | error err => rfl
    | ok u => simp [hp] at hok
  | some r =>
    rw [hok.2 ⟨r, hr⟩]
    rfl

theorem settled_of_conclusive {exchange : Exchange} {r : PublishEventsResult}
    (hr : resultsOf fromSlice fromSliceError exchange = some r)
    (hc : conclusive fromSlice fromSliceError exchange = true) :
    reportsSettled fromSlice fromSliceError exchange = true := by
  simpa [conclusive, reportsSettled, hr] using hc

/-- One call acknowledges as it is due exactly when the answer, if it is a success, settles the
event. -/
theorem sent_eq_dueAck_iff (chain : String) (client : PostEvents → Exchange)
    (acked : AckKind → Bool) (event : Event) :
    (processQueueMsg fromSlice fromSliceError chain client acked event).sent =
        dueAck fromSlice fromSliceError (client (postEventsRequest chain event)) ↔
      conclusive fromSlice fromSliceError (client (postEventsRequest chain event)) = true := by
  rw [processQueueMsg_sent, dueAck, reportsSettled, conclusive]
  cases resultsOf fromSlice fromSliceError (client (postEventsRequest chain event)) with
  | none => simp
  | some r => by_cases hs : r.results.any settling <;> simp [hs]

end Decoding

end Ingester

end RelayerCore
