import RelayerCore.Ingester.ProcessQueueMsg
import RelayerCore.Lib.Custody
import RelayerCore.Lib.Machine

/-!
# Ingesters on a NATS stream (`infrastructure/src/nats.rs`, `nats/consumer.rs`)

Every connect creates a consumer of the events stream under a fresh random name, with the
configuration of `ConfiguredStream::consumer`.  JetStream behaves as documented: a consumer starts
where its deliver policy says, delivers an event at most `max_deliver` times and with at most
`max_ack_pending` deliveries unanswered, delivers again what was answered with `Nak` or not in
time, and disappears with everything it knew when it has been inactive for long.

Events are numbered in the order in which they are stored, from `0`, and ingesters by the names of
their consumers.  Time is left out: an answer may be overdue, and a consumer that nobody listens to
may disappear, at any moment.
-/

namespace RelayerCore
namespace NatsConsumer

open Machine Ingester

/-- Where a new consumer starts in the stream. -/
inductive DeliverPolicy
  | all
  | new
  deriving DecidableEq

/-- The first event delivered by a consumer created when the stream has `stored` events. -/
def DeliverPolicy.startSeq : DeliverPolicy → ℕ → ℕ
  | .all, _ => 0
  | .new, stored => stored

/-- `jetstream::consumer::push::Config`, as far as it decides what is delivered. -/
structure PushConfig where
  deliverPolicy : DeliverPolicy
  maxDeliver : ℕ
  maxAckPending : ℕ

/-- The configuration of `ConfiguredStream::consumer`. -/
def consumerConfig : PushConfig :=
  { deliverPolicy := .new, maxDeliver := 10, maxAckPending := 100 }

/-- `jetstream::AckKind`; a `Nak` may ask for a delay. -/
inductive JetstreamAckKind
  | ack
  | nak (delay : Option ℕ)
  | progress
  deriving DecidableEq

/-- The conversion of `nats/consumer.rs`. -/
def jetstreamAckKind : AckKind → JetstreamAckKind
  | .ack => .ack
  | .nak => .nak none
  | .progress => .progress

/-! ### A consumer -/

/-- A consumer on the server: how often it delivered each event, which deliveries it awaits an
answer for, and which events were acknowledged to it. -/
structure Consumer (config : PushConfig) where
  startSeq : ℕ
  delivered : ℕ → ℕ
  pending : List ℕ
  acked : List ℕ

namespace Consumer

variable {config : PushConfig} (c : Consumer config)

/-- `create_consumer` on a stream of `stored` events. -/
def create (config : PushConfig) (stored : ℕ) : Consumer config :=
  { startSeq := config.deliverPolicy.startSeq stored, delivered := fun _ => 0
    pending := [], acked := [] }

def deliver (stored seq : ℕ) : Option (Consumer config) :=
  if c.startSeq ≤ seq ∧ seq < stored ∧ c.delivered seq < config.maxDeliver ∧ seq ∉ c.pending ∧
      seq ∉ c.acked ∧ c.pending.length < config.maxAckPending then
    some { c with
      delivered := Function.update c.delivered seq (c.delivered seq + 1)
      pending := seq :: c.pending }
  else none

/-- No answer is awaited for the event any more. -/
def unpend (seq : ℕ) : Consumer config := { c with pending := c.pending.filter (· ≠ seq) }

/-- The answer to a delivery is overdue. -/
def timeout (seq : ℕ) : Option (Consumer config) :=
  if seq ∈ c.pending then some (c.unpend seq) else none

/-- An answer arrives. -/
def answered (seq : ℕ) : JetstreamAckKind → Consumer config
  | .ack => { c.unpend seq with acked := seq :: c.acked }
  | .nak _ => c.unpend seq
  | .progress => c

/-- The consumer will still deliver the event.  With `unanswered`, a last delivery that is still
to be answered counts as well. -/
def owes (unanswered : Bool) (seq : ℕ) : Bool :=
  decide (c.startSeq ≤ seq) && !c.acked.contains seq &&
    (decide (c.delivered seq < config.maxDeliver) || unanswered && c.pending.contains seq)

end Consumer

/-! ### An ingester -/

inductive Link
  | connected
  | disconnected
  | stopped
  deriving DecidableEq

/-- An ingester: its connection, the deliveries it has not answered, and its consumer as long as
the server keeps it. -/
structure IngesterState where
  link : Link
  inFlight : List ℕ
  consumer : Option (Consumer consumerConfig)

/-- What becomes of an answer: it arrives, or is lost on the way, or `ack_with` fails. -/
inductive Sending
  | arrived
  | lost
  | failed
  deriving DecidableEq

/-- `ack_with` returned `Ok`. -/
def Sending.isOk : Sending → Bool
  | .failed => false
  | _ => true

/-- A step of one ingester or its consumer. -/
inductive Act
  | disconnect
  | reconnect
  | stop
  /-- the server removes the consumer -/
  | expire
  | deliver (seq : ℕ)
  | timeout (seq : ℕ)
  | decodeFailed (seq : ℕ)
  /-- the API call of `process_queue_msg` ends, and the answer goes out -/
  | answer (seq : ℕ) (exchange : Exchange) (sending : Sending)

inductive Action (ν : Type)
  | publish (event : Event)
  | start (n : ν)
  | act (n : ν) (a : Act)

/-- The stream, the events some ingester has acknowledged, and every ingester ever started. -/
structure State (ν : Type) where
  events : List Event
  acked : List ℕ
  ingester : ν → Option IngesterState

def init (ν : Type) : State ν := { events := [], acked := [], ingester := fun _ => none }

/-- A new ingester on a stream of `stored` events. -/
def IngesterState.new (stored : ℕ) : IngesterState :=
  { link := .connected, inFlight := [], consumer := some (.create consumerConfig stored) }

section Step

variable (fromSlice : List UInt8 → Option PublishEventsResult)
  (fromSliceError : List UInt8 → Option ErrorResponse) (chain : String)

/-- The kind `process_queue_msg` answers an event with. -/
def sentKind (event : Event) (exchange : Exchange) (sending : Sending) : AckKind :=
  (processQueueMsg fromSlice fromSliceError chain (fun _ => exchange) (fun _ => sending.isOk)
    event).sent

/-- What an act does to its ingester. -/
def IngesterState.move (events : List Event) (g : IngesterState) : Act → Option IngesterState
  | .disconnect => if g.link = .connected then some { g with link := .disconnected } else none
  | .reconnect => if g.link = .disconnected then some { g with link := .connected } else none
  | .stop =>
    if g.link = .stopped then none else some { g with link := .stopped, inFlight := [] }
  | .expire => if g.link = .connected then none else some { g with consumer := none }
  | .deliver seq =>
    if g.link = .connected then
      (g.consumer.bind (·.deliver events.length seq)).map fun c =>
        { g with consumer := some c, inFlight := seq :: g.inFlight }
    else none
  | .timeout seq =>
    (g.consumer.bind (·.timeout seq)).map fun c => { g with consumer := some c }
  | .decodeFailed seq =>
    -- the application only sees an error, and nothing is answered
    if seq ∈ g.inFlight then some { g with inFlight := g.inFlight.erase seq } else none
  | .answer seq exchange sending =>
    if seq ∈ g.inFlight ∧ (sending = .arrived → g.link = .connected) then
      events[seq]?.map fun event =>
        { g with
          inFlight := g.inFlight.erase seq
          consumer := if sending = .arrived then
              g.consumer.map (·.answered seq
                (jetstreamAckKind (sentKind fromSlice fromSliceError chain event exchange sending)))
            else g.consumer }
    else none

/-- The event an act acknowledges: its `ack` was called with `Ack` and returned `Ok`. -/
def ackedBy (events : List Event) : Act → List ℕ
  | .answer seq exchange sending =>
    match events[seq]? with
    | some event =>
      if sentKind fromSlice fromSliceError chain event exchange sending = .ack ∧ sending.isOk then
        [seq]
      else []
    | none => []
  | _ => []

variable {ν : Type} [DecidableEq ν]

/-- One step of the stream or of an ingester. -/
def step (s : State ν) : Action ν → Option (State ν)
  | .publish event => some { s with events := s.events ++ [event] }
  | .start n =>
    match s.ingester n with
    | some _ => none
    | none =>
      some { s with ingester := Function.update s.ingester n (some (.new s.events.length)) }
  | .act n a =>
    (s.ingester n).bind fun g =>
      (g.move fromSlice fromSliceError chain s.events a).map fun g' =>
        { s with
          acked := ackedBy fromSlice fromSliceError chain s.events a ++ s.acked
          ingester := Function.update s.ingester n (some g') }

end Step

/-! ### Which events will be delivered -/

/-- A running ingester whose consumer will still deliver the event. -/
def IngesterState.owes (unanswered : Bool) (g : IngesterState) (seq : ℕ) : Bool :=
  decide (g.link ≠ .stopped) && g.consumer.any (·.owes unanswered seq)

variable {ν : Type}

def State.owedBy (unanswered : Bool) (s : State ν) (n : ν) (seq : ℕ) : Bool :=
  (s.ingester n).any (·.owes unanswered seq)

/-- Every stored event is acknowledged, or will still be delivered by the consumer of a running
ingester, or by the consumer of the next one to start. -/
def Deliverable (unanswered : Bool) (s : State ν) : Prop :=
  ∀ seq < s.events.length, seq ∈ s.acked ∨ (∃ n, s.owedBy unanswered n seq = true) ∨
    (Consumer.create consumerConfig s.events.length).owes unanswered seq = true

instance [Fintype ν] (unanswered : Bool) (s : State ν) : Decidable (Deliverable unanswered s) := by
  unfold Deliverable
  infer_instance

/-- The stored events in the custody of the ingesters. -/
def State.custody (unanswered : Bool) (s : State ν) : Custody ν ℕ where
  items := {seq | seq < s.events.length}
  settled := {seq | seq ∈ s.acked}
  holds n := {seq | s.owedBy unanswered n seq = true}

/-- A consumer that starts with the new events never delivers a stored one. -/
theorem not_owes_create {unanswered : Bool} {stored seq : ℕ} (h : seq < stored) :
    (Consumer.create consumerConfig stored).owes unanswered seq = false := by
  have hstart : ¬ stored ≤ seq := by omega
  simp [Consumer.owes, Consumer.create, consumerConfig, DeliverPolicy.startSeq, hstart]

/-- The next ingester is of no help to the events already stored. -/
theorem deliverable_iff_kept {unanswered : Bool} {s : State ν} :
    Deliverable unanswered s ↔ (s.custody unanswered).Kept := by
  constructor
  · intro h seq hseq
    rcases h seq hseq with hack | hown | hnext
    · exact Or.inl hack
    · exact Or.inr hown
    · rw [not_owes_create hseq] at hnext
      cases hnext
  · intro h seq hseq
    rcases h seq hseq with hack | hown
    · exact Or.inl hack
    · exact Or.inr (Or.inl hown)

end NatsConsumer
end RelayerCore
