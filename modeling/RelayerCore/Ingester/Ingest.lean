import RelayerCore.Ingester.ProcessQueueMsg
import RelayerCore.Lib.Machine

/-!
# Runs of the ingester (`Ingester::ingest`)

The queue keeps a message until an `Ack` for it arrives and may deliver it any number of times, so
several deliveries of one message can be worked on at once.  `ingest` works on up to
`concurrent_queue_items` deliveries (`0` is no limit) in any order: the request goes out, the API
decides, an answer or a failure comes back, and the acknowledgement of `process_queue_msg` follows.

`settled` collects the messages whose event the API has accepted or finally rejected, whether or
not its answer got through; an answer that reports the event as settled is truthful.
-/

namespace RelayerCore
namespace Ingester

open Machine

/-- A message of the queue. -/
structure Message where
  tag : ℕ
  event : Event
  deriving DecidableEq

/-- A message being worked on, with what became of its request once that is known. -/
structure Delivery where
  message : Message
  exchange : Option Exchange
  deriving DecidableEq

structure State where
  queue : List Message
  next : ℕ
  inFlight : List Delivery
  gone : List Message
  settled : List ℕ
  errors : ℕ
  deriving DecidableEq

/-- An empty queue and nothing in flight. -/
def init : State :=
  { queue := [], next := 0, inFlight := [], gone := [], settled := [], errors := 0 }

inductive Action
  | publish (event : Event)
  | receive (i : ℕ)
  | receiveFailed
  | exchange (i : ℕ) (settles : Bool) (exchange : Exchange)
  | finish (i : ℕ) (acked : Bool)

section Run

variable (fromSlice : List UInt8 → Option PublishEventsResult)
  (fromSliceError : List UInt8 → Option ErrorResponse) (chain : String)
  (concurrentQueueItems : ℕ)

/-- One step of the queue, the API or a call of `process_queue_msg`. -/
def step (s : State) : Action → Option State
  | .publish event =>
    some { s with queue := s.queue ++ [⟨s.next, event⟩], next := s.next + 1 }
  | .receive i =>
    match s.queue[i]? with
    | some m =>
      if concurrentQueueItems = 0 ∨ s.inFlight.length < concurrentQueueItems then
        some { s with inFlight := s.inFlight ++ [⟨m, none⟩] }
      else none
    | none => none
  | .receiveFailed => some { s with errors := s.errors + 1 }
  | .exchange i settles x =>
    match s.inFlight[i]? with
    | some ⟨m, none⟩ =>
      if (reportsSettled fromSlice fromSliceError x → settles) ∧ (settles → x.built) then
        some { s with
          inFlight := s.inFlight.set i ⟨m, some x⟩
          settled := if settles then m.tag :: s.settled else s.settled }
      else none
    | _ => none
  | .finish i acked =>
    match s.inFlight[i]? with
    | some ⟨m, some x⟩ =>
      let p := processQueueMsg fromSlice fromSliceError chain (fun _ => x) (fun _ => acked) m.event
      if p.sent = .ack ∧ acked then
        some { s with
          queue := s.queue.filter (fun n => n.tag ≠ m.tag)
          inFlight := s.inFlight.eraseIdx i
          gone := m :: s.gone
          errors := s.errors + p.errors }
      else
        some { s with inFlight := s.inFlight.eraseIdx i, errors := s.errors + p.errors }
    | _ => none

/-- Every event that left the queue through an `Ack` was accepted or finally rejected. -/
def NoneLost (s : State) : Prop := ∀ m ∈ s.gone, m.tag ∈ s.settled

/-- The answers that come back are conclusive. -/
def ConclusiveStep (_ : State) : Action → Prop
  | .exchange _ _ x => conclusive fromSlice fromSliceError x = true
  | _ => True

instance (s : State) (a : Action) : Decidable (ConclusiveStep fromSlice fromSliceError s a) := by
  unfold ConclusiveStep
  split <;> infer_instance

variable {fromSlice fromSliceError chain concurrentQueueItems}

/-- What is known of a delivery: its answer is conclusive, and an event it reports as settled is
settled. -/
structure Delivery.Sound (fromSlice : List UInt8 → Option PublishEventsResult)
    (fromSliceError : List UInt8 → Option ErrorResponse) (settled : List ℕ) (d : Delivery) :
    Prop where
  conclusive : ∀ x ∈ d.exchange, conclusive fromSlice fromSliceError x = true
  settled : ∀ x ∈ d.exchange, reportsSettled fromSlice fromSliceError x = true →
    d.message.tag ∈ settled

theorem Delivery.Sound.mono {settled settled' : List ℕ} {d : Delivery}
    (h : d.Sound fromSlice fromSliceError settled) (hs : settled ⊆ settled') :
    d.Sound fromSlice fromSliceError settled' :=
  ⟨h.conclusive, fun x hx hr => hs (h.settled x hx hr)⟩

/-- The invariant of the runs with conclusive answers. -/
structure Inv (fromSlice : List UInt8 → Option PublishEventsResult)
    (fromSliceError : List UInt8 → Option ErrorResponse) (s : State) : Prop where
  noneLost : NoneLost s
  inFlight : ∀ d ∈ s.inFlight, d.Sound fromSlice fromSliceError s.settled

theorem inv_init : Inv fromSlice fromSliceError init :=
  ⟨by simp [NoneLost, init], by simp [init]⟩

theorem inv_exchange {s s' : State} {i : ℕ} {settles : Bool} {x : Exchange}
    (h : Inv fromSlice fromSliceError s) (hc : conclusive fromSlice fromSliceError x = true)
    (hs : step fromSlice fromSliceError chain concurrentQueueItems s (.exchange i settles x) =
      some s') : Inv fromSlice fromSliceError s' := by
  simp only [step] at hs
  split at hs
  · rename_i m hm
    obtain ⟨hg, hs⟩ := Option.ite_none_right_eq_some.1 hs
    cases hs
    have hsub : s.settled ⊆ if settles then m.tag :: s.settled else s.settled := by
      split_ifs <;> simp
    refine ⟨fun n hn => hsub (h.noneLost n hn), fun d hd => ?_⟩
    rcases List.mem_or_eq_of_mem_set hd with hd | rfl
    · exact (h.inFlight d hd).mono hsub
    · refine ⟨by simpa using hc, ?_⟩
      rintro y ⟨⟩ hr
      simp [hg.1 hr]
  · cases hs

theorem inv_finish {s s' : State} {i : ℕ} {acked : Bool}
    (h : Inv fromSlice fromSliceError s)
    (hs : step fromSlice fromSliceError chain concurrentQueueItems s (.finish i acked) =
      some s') : Inv fromSlice fromSliceError s' := by
  simp only [step] at hs
  split at hs
  · rename_i m x hm
    have hrest : ∀ d ∈ s.inFlight.eraseIdx i, d.Sound fromSlice fromSliceError s.settled :=
      fun d hd => h.inFlight d (List.mem_of_mem_eraseIdx hd)
    split_ifs at hs with hack
    · cases hs
      have hd := h.inFlight _ (List.mem_of_getElem? hm)
      -- an `Ack` is only sent for an answer that decodes, and this one is conclusive
      have hset : reportsSettled fromSlice fromSliceError x = true := by
        have hsent := hack.1
        rw [processQueueMsg_sent] at hsent
        cases hr : resultsOf fromSlice fromSliceError x with
        | none => simp [hr] at hsent
        | some r => exact settled_of_conclusive hr (hd.conclusive x rfl)
      refine ⟨fun n hn => ?_, hrest⟩
      rcases List.mem_cons.1 hn with rfl | hn
      · exact hd.settled x rfl hset
      · exact h.noneLost n hn
    · cases hs
      exact ⟨h.noneLost, hrest⟩
  · cases hs

theorem inv_step {s s' : State} {a : Action} (h : Inv fromSlice fromSliceError s)
    (hs : when (ofFn (step fromSlice fromSliceError chain concurrentQueueItems))
      (ConclusiveStep fromSlice fromSliceError) s a s') : Inv fromSlice fromSliceError s' := by
  obtain ⟨hok, hs⟩ := hs
  cases a with
  | publish event =>
    cases hs
    exact ⟨h.noneLost, h.inFlight⟩
  | receive i =>
    simp only [ofFn, step] at hs
    split at hs
    · split_ifs at hs
      cases hs
      refine ⟨h.noneLost, fun d hd => ?_⟩
      rcases List.mem_append.1 hd with hd | hd
      · exact h.inFlight d hd
      · rw [List.mem_singleton.1 hd]
        exact ⟨by simp, by simp⟩
    · cases hs
  | receiveFailed =>
    cases hs
    exact ⟨h.noneLost, h.inFlight⟩
  | exchange i settles x => exact inv_exchange h hok hs
  | finish i acked => exact inv_finish h hs

/-- **The ingester acknowledges away only settled events, as far as answers are conclusive.**
A call sends the due acknowledgement exactly when its answer is conclusive, and a run whose answers
are all conclusive loses no event. -/
theorem ingester_loses_none_iff_conclusive :
    (∀ (chain : String) (client : PostEvents → Exchange) (acked : AckKind → Bool) (event : Event),
      (processQueueMsg fromSlice fromSliceError chain client acked event).sent =
          dueAck fromSlice fromSliceError (client (postEventsRequest chain event)) ↔
        conclusive fromSlice fromSliceError (client (postEventsRequest chain event)) = true) ∧
    ∀ s, Reach (when (ofFn (step fromSlice fromSliceError chain concurrentQueueItems))
      (ConclusiveStep fromSlice fromSliceError)) init s → NoneLost s :=
  ⟨sent_eq_dueAck_iff, fun _ h => (h.invariant inv_init fun _ _ _ => inv_step).noneLost⟩

end Run

/-! ### A retriable error inside a successful answer -/

/-- The bytes of a JSON text. -/
def jsonBytes (text : String) : List UInt8 := text.toUTF8.data.toList

/-- The API answers `200` and reports the posted event as an error to be tried again. -/
def retryBody : List UInt8 :=
  jsonBytes "\x7b\"results\":[\x7b\"status\":\"ERROR\",\"index\":0,\"error\":\"busy\",\"retriable\":true\x7d]\x7d"

/-- The API answers `200` and reports the posted event as accepted. -/
def acceptBody : List UInt8 :=
  jsonBytes "\x7b\"results\":[\x7b\"status\":\"ACCEPTED\",\"index\":0\x7d]\x7d"

/-- Decoding of the two bodies. -/
def decodeResults (bytes : List UInt8) : Option PublishEventsResult :=
  if bytes = retryBody then some ⟨[.error ⟨⟨0⟩, "busy", true⟩]⟩
  else if bytes = acceptBody then some ⟨[.accepted ⟨⟨0⟩⟩]⟩
  else none

def decodeError (_ : List UInt8) : Option ErrorResponse := none

/-- A signers rotation, as an event to post. -/
def rotation : Event :=
  .signersRotated ⟨⟨⟨"0xab-0"⟩, none⟩, ⟨none, ⟨1, by norm_num, by norm_num⟩⟩⟩

/-- The run in which the event is published, delivered, answered with `body` and finished. -/
def singleRun (settles : Bool) (body : List UInt8) : List Action :=
  [.publish rotation, .receive 0, .exchange 0 settles (.answered ⟨200, some body⟩), .finish 0 true]

theorem ingester_drops_retriable_event :
    (processQueueMsg decodeResults decodeError "solana"
        (fun _ => .answered ⟨200, some retryBody⟩) (fun _ => true) rotation).sent = .ack ∧
      dueAck decodeResults decodeError (.answered ⟨200, some retryBody⟩) = .nak ∧
      ∃ s, Reach (ofFn (step decodeResults decodeError "solana" 1)) init s ∧ ¬ NoneLost s := by
  refine ⟨by decide +kernel, by decide +kernel, ?_⟩
  obtain ⟨s, hs, hp⟩ := exists_reach_of_exec (step decodeResults decodeError "solana" 1) init
    (singleRun false retryBody) (fun s => s.gone.any fun m => !s.settled.contains m.tag)
    (by decide +kernel)
  refine ⟨s, hs, fun hn => ?_⟩
  obtain ⟨m, hm, hno⟩ := List.any_eq_true.1 hp
  simp [hn m hm] at hno

/-- The theorem on a run whose only answer accepts the event. -/
theorem ingester_loses_none_accepted :
    ∃ s, (s.gone.map Message.tag = [0]) ∧ NoneLost s := by
  obtain ⟨s, hs, hp⟩ := exists_reach_when_of_exec (step decodeResults decodeError "solana" 1)
    (ConclusiveStep decodeResults decodeError) init (singleRun true acceptBody)
    (fun s => s.gone.map Message.tag == [0]) (by decide +kernel)
  exact ⟨s, by simpa using hp, ingester_loses_none_iff_conclusive.2 s hs⟩

end Ingester
end RelayerCore
