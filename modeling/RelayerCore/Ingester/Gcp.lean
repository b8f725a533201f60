import RelayerCore.GcpConsumer.Lose
import RelayerCore.Ingester.Ingest
import RelayerCore.Queue.Publish

/-!
# Events on their way through Pub/Sub (`amplifier-ingester/src/components/gcp.rs`)

The ingester with its Pub/Sub consumer.  The receive callbacks go on by themselves, `ingest` takes
what they forward and works on up to `concurrent_queue_items` messages at once (`0` is no limit),
and each call of `process_queue_msg` moves its message on: it posts the event, acknowledges the
message one way or the other, and drops it.

`posted` collects the requests that are over, with what became of them, across crashes.
-/

namespace RelayerCore
namespace Ingester
namespace Gcp

open Machine
open GcpConsumer (Subscription Call Reply GcpMessage MSG_ID)
open Queue (PublishMessage MessageContent ContextFits)

/-- Where a call of `process_queue_msg` stands. -/
inductive Work
  | posting
  /-- the request is over, the acknowledgement is not -/
  | acking (exchange : Exchange)
  | done
  deriving DecidableEq

structure Job (ι : Type) where
  delivery : ι
  event : Event
  work : Work
  deriving DecidableEq

/-- `channelErrs` are the errors in the channel, `errors` those counted by the metrics. -/
structure State (ι : Type) where
  consumer : GcpConsumer.State ι
  channelErrs : ℕ
  inFlight : List (Job ι)
  posted : List (PostEvents × Exchange)
  errors : ℕ

variable {ι : Type}

def init (ι : Type) (ackDeadlineSecs : ℤ) : State ι :=
  { consumer := GcpConsumer.init ι ackDeadlineSecs
    channelErrs := 0
    inFlight := []
    posted := []
    errors := 0 }

inductive Action (ι : Type)
  | elapse (secs : ℕ)
  | crash
  | callback (i : ι) (c : Call)
  | receive (i : ι)
  | receiveErr
  | exchange (n : ℕ) (x : Exchange)
  | ack (n : ℕ) (ok : Bool)
  | setEx (n : ℕ) (reply : Reply)
  | drop (n : ℕ)

/-- The calls of the receive callback; the others are the application's. -/
def ofCallback : Call → Bool
  | .deliver | .decode | .isProcessed _ | .ackDuplicate _ | .forwardMessage _ => true
  | _ => false

def State.setWork (s : State ι) (n : ℕ) (job : Job ι) (work : Work) : State ι :=
  { s with inFlight := s.inFlight.set n { job with work } }

variable [DecidableEq ι]

section Step

variable (fromSlice : List UInt8 → Option PublishEventsResult)
  (fromSliceError : List UInt8 → Option ErrorResponse) (sub : Subscription ι Event)
  (chain : String) (concurrentQueueItems : ℕ)

/-- What a call of `process_queue_msg` does once the outcome of its request is known. -/
def processed (event : Event) (x : Exchange) (acked : Bool) : Processed :=
  processQueueMsg fromSlice fromSliceError chain (fun _ => x) (fun _ => acked) event

/-- `process_queue_msg` returns. -/
def State.finish (s : State ι) (n : ℕ) (job : Job ι) (x : Exchange) (acked : Bool) : State ι :=
  { s.setWork n job .done with
    errors := s.errors + (processed fromSlice fromSliceError chain job.event x acked).errors }

/-- The consumer takes a step. -/
def State.consume (s : State ι) (a : GcpConsumer.Action ι) : Option (State ι) :=
  (GcpConsumer.step sub s.consumer a).map fun consumer => { s with consumer }

/-- `for_each_concurrent` takes another item. -/
def HasRoom (s : State ι) : Prop :=
  concurrentQueueItems = 0 ∨ s.inFlight.length < concurrentQueueItems

instance (s : State ι) : Decidable (HasRoom concurrentQueueItems s) :=
  inferInstanceAs (Decidable (_ ∨ _))

def step (s : State ι) : Action ι → Option (State ι)
  | .elapse secs => s.consume sub (.elapse secs)
  | .crash =>
    (s.consume sub .crash).map fun s => { s with channelErrs := 0, inFlight := [], errors := 0 }
  | .callback i c =>
    if ofCallback c then
      (s.consume sub (.call i c)).map fun s' =>
        if s.consumer.phase i = .failing ∧ c = .forwardMessage true then
          { s' with channelErrs := s.channelErrs + 1 }
        else s'
    else none
  | .receive i =>
    match sub.decoded i with
    | .ok m =>
      if HasRoom concurrentQueueItems s then
        (s.consume sub (.call i .receive)).map fun s =>
          { s with inFlight := s.inFlight ++ [⟨i, m.decoded, .posting⟩] }
      else none
    | .error _ => none
  | .receiveErr =>
    if HasRoom concurrentQueueItems s ∧ 0 < s.channelErrs then
      some { s with channelErrs := s.channelErrs - 1, errors := s.errors + 1 }
    else none
  | .exchange n x =>
    match s.inFlight[n]? with
    | some ⟨i, event, .posting⟩ =>
      some { s.setWork n ⟨i, event, .posting⟩ (.acking x) with
        posted := (postEventsRequest chain event, x) :: s.posted }
    | _ => none
  | .ack n ok =>
    match s.inFlight[n]? with
    | some ⟨i, event, .acking x⟩ =>
      match (processed fromSlice fromSliceError chain event x ok).sent with
      | .ack =>
        (s.consume sub (.call i (.ack ok))).map fun s =>
          -- the marker is still to be written
          if ok then s else s.finish fromSlice fromSliceError chain n ⟨i, event, .acking x⟩ x false
      | .nak =>
        (s.consume sub (.call i (.nak ok))).map fun s =>
          s.finish fromSlice fromSliceError chain n ⟨i, event, .acking x⟩ x ok
      | .progress => none
    | _ => none
  | .setEx n reply =>
    match s.inFlight[n]? with
    | some ⟨i, event, .acking x⟩ =>
      (s.consume sub (.call i (.setEx reply))).map fun s =>
        s.finish fromSlice fromSliceError chain n ⟨i, event, .acking x⟩ x (reply == .ok)
    | _ => none
  | .drop n =>
    match s.inFlight[n]? with
    | some ⟨i, _, .done⟩ =>
      (if s.consumer.phase i = .handed then s.consume sub (.call i .drop) else some s).map fun s =>
        { s with inFlight := s.inFlight.eraseIdx n }
    | _ => none

end Step

/-! ### What a step can do -/

section Moves

variable {fromSlice : List UInt8 → Option PublishEventsResult}
  {fromSliceError : List UInt8 → Option ErrorResponse} {sub : Subscription ι Event}
  {chain : String} {concurrentQueueItems : ℕ} {s s' : State ι} {a : Action ι}

/-- The steps, case by case. -/
inductive Acts (fromSlice : List UInt8 → Option PublishEventsResult)
    (fromSliceError : List UInt8 → Option ErrorResponse) (sub : Subscription ι Event)
    (chain : String) (concurrentQueueItems : ℕ) (s : State ι) : Action ι → State ι → Prop
  | elapse (secs : ℕ) (consumer : GcpConsumer.State ι)
      (hconsumer : GcpConsumer.step sub s.consumer (.elapse secs) = some consumer) :
      Acts fromSlice fromSliceError sub chain concurrentQueueItems s (.elapse secs)
        { s with consumer }
  | crash (consumer : GcpConsumer.State ι)
      (hconsumer : GcpConsumer.step sub s.consumer .crash = some consumer) :
      Acts fromSlice fromSliceError sub chain concurrentQueueItems s .crash
        { s with consumer, channelErrs := 0, inFlight := [], errors := 0 }
  | callback (i : ι) (c : Call) (consumer : GcpConsumer.State ι) (hc : ofCallback c = true)
      (hconsumer : GcpConsumer.step sub s.consumer (.call i c) = some consumer) :
      Acts fromSlice fromSliceError sub chain concurrentQueueItems s (.callback i c)
        { s with
          consumer
          channelErrs := if s.consumer.phase i = .failing ∧ c = .forwardMessage true
            then s.channelErrs + 1 else s.channelErrs }
  | receive (i : ι) (m : GcpMessage Event) (consumer : GcpConsumer.State ι)
      (hdec : sub.decoded i = .ok m) (hroom : HasRoom concurrentQueueItems s)
      (hconsumer : GcpConsumer.step sub s.consumer (.call i .receive) = some consumer) :
      Acts fromSlice fromSliceError sub chain concurrentQueueItems s (.receive i)
        { s with consumer, inFlight := s.inFlight ++ [⟨i, m.decoded, .posting⟩] }
  | receiveErr (hroom : HasRoom concurrentQueueItems s) (herrs : 0 < s.channelErrs) :
      Acts fromSlice fromSliceError sub chain concurrentQueueItems s .receiveErr
        { s with channelErrs := s.channelErrs - 1, errors := s.errors + 1 }
  | exchange (n : ℕ) (i : ι) (event : Event) (x : Exchange)
      (hn : s.inFlight[n]? = some ⟨i, event, .posting⟩) :
      Acts fromSlice fromSliceError sub chain concurrentQueueItems s (.exchange n x)
        { s.setWork n ⟨i, event, .posting⟩ (.acking x) with
          posted := (postEventsRequest chain event, x) :: s.posted }
  /-- Pub/Sub takes the `Ack` -/
  | acked (n : ℕ) (i : ι) (event : Event) (x : Exchange) (consumer : GcpConsumer.State ι)
      (hn : s.inFlight[n]? = some ⟨i, event, .acking x⟩)
      (hresults : (resultsOf fromSlice fromSliceError x).isSome)
      (hconsumer : GcpConsumer.step sub s.consumer (.call i (.ack true)) = some consumer) :
      Acts fromSlice fromSliceError sub chain concurrentQueueItems s (.ack n true)
        { s with consumer }
  | ackFails (n : ℕ) (i : ι) (event : Event) (x : Exchange) (consumer : GcpConsumer.State ι)
      (hn : s.inFlight[n]? = some ⟨i, event, .acking x⟩)
      (hconsumer : GcpConsumer.step sub s.consumer (.call i (.ack false)) = some consumer) :
      Acts fromSlice fromSliceError sub chain concurrentQueueItems s (.ack n false)
        (State.finish fromSlice fromSliceError chain { s with consumer } n ⟨i, event, .acking x⟩ x
          false)
  | nak (n : ℕ) (ok : Bool) (i : ι) (event : Event) (x : Exchange)
      (consumer : GcpConsumer.State ι) (hn : s.inFlight[n]? = some ⟨i, event, .acking x⟩)
      (hresults : (resultsOf fromSlice fromSliceError x).isSome = false)
      (hconsumer : GcpConsumer.step sub s.consumer (.call i (.nak ok)) = some consumer) :
      Acts fromSlice fromSliceError sub chain concurrentQueueItems s (.ack n ok)
        (State.finish fromSlice fromSliceError chain { s with consumer } n ⟨i, event, .acking x⟩ x
          ok)
  | setEx (n : ℕ) (reply : Reply) (i : ι) (event : Event) (x : Exchange)
      (consumer : GcpConsumer.State ι) (hn : s.inFlight[n]? = some ⟨i, event, .acking x⟩)
      (hconsumer : GcpConsumer.step sub s.consumer (.call i (.setEx reply)) = some consumer) :
      Acts fromSlice fromSliceError sub chain concurrentQueueItems s (.setEx n reply)
        (State.finish fromSlice fromSliceError chain { s with consumer } n ⟨i, event, .acking x⟩ x
          (reply == .ok))
  | drop (n : ℕ) (i : ι) (event : Event) (consumer : GcpConsumer.State ι)
      (hn : s.inFlight[n]? = some ⟨i, event, .done⟩)
      (hconsumer : s.consumer.phase i = .handed ∧
          GcpConsumer.step sub s.consumer (.call i .drop) = some consumer ∨
        s.consumer.phase i ≠ .handed ∧ consumer = s.consumer) :
      Acts fromSlice fromSliceError sub chain concurrentQueueItems s (.drop n)
        { s with consumer, inFlight := s.inFlight.eraseIdx n }

theorem processed_sent {event : Event} {x : Exchange} {acked : Bool} :
    (processed fromSlice fromSliceError chain event x acked).sent =
      if (resultsOf fromSlice fromSliceError x).isSome then .ack else .nak :=
  processQueueMsg_sent ..

theorem consume_eq_some {b : GcpConsumer.Action ι} (h : s.consume sub b = some s') :
    ∃ consumer, GcpConsumer.step sub s.consumer b = some consumer ∧ s' = { s with consumer } := by
  obtain ⟨consumer, hconsumer, rfl⟩ := Option.map_eq_some_iff.1 h
  exact ⟨consumer, hconsumer, rfl⟩

theorem acts_of_ack {n : ℕ} {ok : Bool}
    (hs : step fromSlice fromSliceError sub chain concurrentQueueItems s (.ack n ok) = some s') :
    Acts fromSlice fromSliceError sub chain concurrentQueueItems s (.ack n ok) s' := by
  simp only [step] at hs
  split at hs
  · rename_i i event x hn
    split at hs <;> rename_i hsent <;> rw [processed_sent] at hsent
    · obtain ⟨t, ht, rfl⟩ := Option.map_eq_some_iff.1 hs
      obtain ⟨consumer, hconsumer, rfl⟩ := consume_eq_some ht
      have hresults : (resultsOf fromSlice fromSliceError x).isSome := by
        by_contra hno
        simp [hno] at hsent
      cases ok with
      | true => exact .acked n i event x consumer hn hresults hconsumer
      | false => exact .ackFails n i event x consumer hn hconsumer
    · obtain ⟨t, ht, rfl⟩ := Option.map_eq_some_iff.1 hs
      obtain ⟨consumer, hconsumer, rfl⟩ := consume_eq_some ht
      have hresults : (resultsOf fromSlice fromSliceError x).isSome = false := by
        by_contra hno
        simp [hno] at hsent
      exact .nak n ok i event x consumer hn hresults hconsumer
    · cases hs
  · cases hs

theorem acts_of_drop {n : ℕ}
    (hs : step fromSlice fromSliceError sub chain concurrentQueueItems s (.drop n) = some s') :
    Acts fromSlice fromSliceError sub chain concurrentQueueItems s (.drop n) s' := by
  simp only [step] at hs
  split at hs
  · rename_i i event hn
    obtain ⟨t, ht, rfl⟩ := Option.map_eq_some_iff.1 hs
    split_ifs at ht with hphase
    · obtain ⟨consumer, hconsumer, rfl⟩ := consume_eq_some ht
      exact .drop n i event consumer hn (Or.inl ⟨hphase, hconsumer⟩)
    · cases ht
      exact .drop n i event s.consumer hn (Or.inr ⟨hphase, rfl⟩)
  · cases hs

theorem acts_of_step
    (hs : step fromSlice fromSliceError sub chain concurrentQueueItems s a = some s') :
    Acts fromSlice fromSliceError sub chain concurrentQueueItems s a s' := by
  cases a with
  | elapse secs =>
    obtain ⟨consumer, hconsumer, rfl⟩ := consume_eq_some hs
    exact .elapse secs consumer hconsumer
  | crash =>
    simp only [step] at hs
    obtain ⟨t, ht, rfl⟩ := Option.map_eq_some_iff.1 hs
    obtain ⟨consumer, hconsumer, rfl⟩ := consume_eq_some ht
    exact .crash consumer hconsumer
  | callback i c =>
    obtain ⟨hc, hs⟩ := Option.ite_none_right_eq_some.1 hs
    obtain ⟨t, ht, rfl⟩ := Option.map_eq_some_iff.1 hs
    obtain ⟨consumer, hconsumer, rfl⟩ := consume_eq_some ht
    convert Acts.callback i c consumer hc hconsumer using 1
    split_ifs <;> rfl
  | receive i =>
    simp only [step] at hs
    split at hs
    · rename_i m hdec
      obtain ⟨hroom, hs⟩ := Option.ite_none_right_eq_some.1 hs
      obtain ⟨t, ht, rfl⟩ := Option.map_eq_some_iff.1 hs
      obtain ⟨consumer, hconsumer, rfl⟩ := consume_eq_some ht
      exact .receive i m consumer hdec hroom hconsumer
    · cases hs
  | receiveErr =>
    obtain ⟨⟨hroom, herrs⟩, hs⟩ := Option.ite_none_right_eq_some.1 hs
    cases hs
    exact .receiveErr hroom herrs
  | exchange n x =>
    simp only [step] at hs
    split at hs
    · rename_i i event hn
      cases hs
      exact .exchange n i event x hn
    · cases hs
  | ack n ok => exact acts_of_ack hs
  | setEx n reply =>
    simp only [step] at hs
    split at hs
    · rename_i i event x hn
      obtain ⟨t, ht, rfl⟩ := Option.map_eq_some_iff.1 hs
      obtain ⟨consumer, hconsumer, rfl⟩ := consume_eq_some ht
      exact .setEx n reply i event x consumer hn hconsumer
    · cases hs
  | drop n => exact acts_of_drop hs

/-- The steps, by what they do to the consumer, the messages in flight and the requests. -/
inductive Moves (fromSlice : List UInt8 → Option PublishEventsResult)
    (fromSliceError : List UInt8 → Option ErrorResponse) (sub : Subscription ι Event)
    (chain : String) (concurrentQueueItems : ℕ) (s s' : State ι) : Prop
  /-- the consumer goes on by itself -/
  | consume (b : GcpConsumer.Action ι) (hack : ∀ i, b ≠ .call i (.ack true))
      (hconsumer : GcpConsumer.step sub s.consumer b = some s'.consumer)
      (hin : s'.inFlight = s.inFlight ∨ s'.inFlight = []) (hposted : s'.posted = s.posted) :
      Moves fromSlice fromSliceError sub chain concurrentQueueItems s s'
  | receive (i : ι) (m : GcpMessage Event) (hdec : sub.decoded i = .ok m)
      (hroom : HasRoom concurrentQueueItems s)
      (hconsumer : GcpConsumer.step sub s.consumer (.call i .receive) = some s'.consumer)
      (hin : s'.inFlight = s.inFlight ++ [⟨i, m.decoded, .posting⟩])
      (hposted : s'.posted = s.posted) :
      Moves fromSlice fromSliceError sub chain concurrentQueueItems s s'
  | receiveErr (hconsumer : s'.consumer = s.consumer)
      (hin : s'.inFlight = s.inFlight) (hposted : s'.posted = s.posted) :
      Moves fromSlice fromSliceError sub chain concurrentQueueItems s s'
  | exchange (n : ℕ) (i : ι) (event : Event) (x : Exchange)
      (hn : s.inFlight[n]? = some ⟨i, event, .posting⟩) (hconsumer : s'.consumer = s.consumer)
      (hin : s'.inFlight = s.inFlight.set n ⟨i, event, .acking x⟩)
      (hposted : s'.posted = (postEventsRequest chain event, x) :: s.posted) :
      Moves fromSlice fromSliceError sub chain concurrentQueueItems s s'
  /-- Pub/Sub takes the `Ack` -/
  | acked (n : ℕ) (i : ι) (event : Event) (x : Exchange)
      (hn : s.inFlight[n]? = some ⟨i, event, .acking x⟩)
      (hsent : (processed fromSlice fromSliceError chain event x true).sent = .ack)
      (hconsumer : GcpConsumer.step sub s.consumer (.call i (.ack true)) = some s'.consumer)
      (hin : s'.inFlight = s.inFlight) (hposted : s'.posted = s.posted) :
      Moves fromSlice fromSliceError sub chain concurrentQueueItems s s'
  /-- any other way the acknowledgement goes -/
  | finish (n : ℕ) (i : ι) (event : Event) (x : Exchange) (c : Call)
      (hn : s.inFlight[n]? = some ⟨i, event, .acking x⟩) (hack : c ≠ .ack true)
      (hconsumer : GcpConsumer.step sub s.consumer (.call i c) = some s'.consumer)
      (hin : s'.inFlight = s.inFlight.set n ⟨i, event, .done⟩) (hposted : s'.posted = s.posted) :
      Moves fromSlice fromSliceError sub chain concurrentQueueItems s s'
  | drop (n : ℕ) (i : ι)
      (hconsumer : GcpConsumer.step sub s.consumer (.call i .drop) = some s'.consumer ∨
        s'.consumer = s.consumer)
      (hin : s'.inFlight = s.inFlight.eraseIdx n) (hposted : s'.posted = s.posted) :
      Moves fromSlice fromSliceError sub chain concurrentQueueItems s s'

theorem moves_of_step
    (hs : step fromSlice fromSliceError sub chain concurrentQueueItems s a = some s') :
    Moves fromSlice fromSliceError sub chain concurrentQueueItems s s' := by
  cases acts_of_step hs with
  | elapse secs consumer hconsumer => exact .consume _ (by simp) hconsumer (Or.inl rfl) rfl
  | crash consumer hconsumer => exact .consume _ (by simp) hconsumer (Or.inr rfl) rfl
  | callback i c consumer hc hconsumer =>
    have hack : ∀ j, GcpConsumer.Action.call i c ≠ .call j (.ack true) := by
      rintro j ⟨⟩
      cases hc
    exact .consume _ hack hconsumer (Or.inl rfl) rfl
  | receive i m consumer hdec hroom hconsumer =>
    exact .receive i m hdec hroom hconsumer rfl rfl
  | receiveErr => exact .receiveErr rfl rfl rfl
  | exchange n i event x hn => exact .exchange n i event x hn rfl rfl rfl
  | acked n i event x consumer hn hresults hconsumer =>
    exact .acked n i event x hn (by rw [processed_sent, if_pos hresults]) hconsumer rfl rfl
  | ackFails n i event x consumer hn hconsumer =>
    exact .finish n i event x (.ack false) hn (by simp) hconsumer rfl rfl
  | nak n ok i event x consumer hn hresults hconsumer =>
    exact .finish n i event x (.nak ok) hn (by simp) hconsumer rfl rfl
  | setEx n reply i event x consumer hn hconsumer =>
    exact .finish n i event x (.setEx reply) hn (by simp) hconsumer rfl rfl
  | drop n i event consumer hn hconsumer =>
    exact .drop n i (hconsumer.imp And.right And.right) rfl rfl

/-! ### What is acknowledged was posted -/

/-- The event of a delivery was posted on its own, and the answer was a success that decodes. -/
def Posted (fromSlice : List UInt8 → Option PublishEventsResult)
    (fromSliceError : List UInt8 → Option ErrorResponse) (sub : Subscription ι Event)
    (chain : String) (posted : List (PostEvents × Exchange)) (i : ι) : Prop :=
  ∃ m, sub.decoded i = .ok m ∧ ∃ x r, (postEventsRequest chain m.decoded, x) ∈ posted ∧
    resultsOf fromSlice fromSliceError x = some r

/-- What is known of a message in flight. -/
structure Job.Sound (sub : Subscription ι Event) (chain : String)
    (posted : List (PostEvents × Exchange)) (job : Job ι) : Prop where
  decoded : ∃ m, sub.decoded job.delivery = .ok m ∧ m.decoded = job.event
  exchanged : ∀ x, job.work = .acking x → (postEventsRequest chain job.event, x) ∈ posted

structure Inv (fromSlice : List UInt8 → Option PublishEventsResult)
    (fromSliceError : List UInt8 → Option ErrorResponse) (sub : Subscription ι Event)
    (chain : String) (concurrentQueueItems : ℕ) (s : State ι) : Prop where
  consumer : GcpConsumer.Inv sub s.consumer
  jobs : ∀ job ∈ s.inFlight, job.Sound sub chain s.posted
  acked : ∀ e ∈ s.consumer.log, e.event = .pubsubAcked →
    Posted fromSlice fromSliceError sub chain s.posted e.delivery
  limit : concurrentQueueItems = 0 ∨ s.inFlight.length ≤ concurrentQueueItems

omit [DecidableEq ι] in
theorem Posted.mono {posted posted' : List (PostEvents × Exchange)} {i : ι}
    (h : Posted fromSlice fromSliceError sub chain posted i) (hsub : posted ⊆ posted') :
    Posted fromSlice fromSliceError sub chain posted' i := by
  obtain ⟨m, hdec, x, r, hmem, hr⟩ := h
  exact ⟨m, hdec, x, r, hsub hmem, hr⟩

omit [DecidableEq ι] in
theorem Job.Sound.mono {posted posted' : List (PostEvents × Exchange)} {job : Job ι}
    (h : job.Sound sub chain posted) (hsub : posted ⊆ posted') : job.Sound sub chain posted' :=
  ⟨h.decoded, fun x hx => hsub (h.exchanged x hx)⟩

omit [DecidableEq ι] in
/-- A message that is acknowledged was posted. -/
theorem posted_of_sent {posted : List (PostEvents × Exchange)} {i : ι} {event : Event}
    {x : Exchange} (h : Job.Sound sub chain posted ⟨i, event, .acking x⟩)
    (hsent : (processed fromSlice fromSliceError chain event x true).sent = .ack) :
    Posted fromSlice fromSliceError sub chain posted i := by
  obtain ⟨m, hdec, hevent⟩ := h.decoded
  have hmem : (postEventsRequest chain event, x) ∈ posted := h.exchanged x rfl
  rw [processed_sent] at hsent
  cases hr : resultsOf fromSlice fromSliceError x with
  | none => simp [hr] at hsent
  | some r => exact ⟨m, hdec, x, r, by rwa [hevent], hr⟩

theorem call_of_pubsubAcked {d m : Bool} {p p' : GcpConsumer.Phase} {c : Call}
    (h : GcpConsumer.move d m p c = some (p', some .pubsubAcked)) : c = .ack true := by
  unfold GcpConsumer.move at h
  split at h <;> (try split_ifs at h) <;> cases h
  rfl

/-- Pub/Sub takes an `Ack` in a step of its own. -/
theorem mem_log_of_step {c c' : GcpConsumer.State ι} {b : GcpConsumer.Action ι}
    {e : GcpConsumer.Entry ι} (hs : GcpConsumer.step sub c b = some c') (he : e ∈ c'.log)
    (hacked : e.event = .pubsubAcked) : e ∈ c.log ∨ b = .call e.delivery (.ack true) := by
  rcases GcpConsumer.step_cases hs with ⟨secs, rfl⟩ | rfl | ⟨i, call, p, event, rfl, hmove, rfl⟩
  · exact Or.inl he
  · exact Or.inl he
  · rcases GcpConsumer.mem_advance_log.1 he with ⟨v, hv, rfl⟩ | he
    · refine Or.inr ?_
      rw [hv, show v = .pubsubAcked from hacked] at hmove
      rw [call_of_pubsubAcked hmove]
    · exact Or.inl he

theorem acked_of_step {posted : List (PostEvents × Exchange)} {c c' : GcpConsumer.State ι}
    {b : GcpConsumer.Action ι} (hs : GcpConsumer.step sub c b = some c')
    (h : ∀ e ∈ c.log, e.event = .pubsubAcked →
      Posted fromSlice fromSliceError sub chain posted e.delivery)
    (hb : ∀ i, b = .call i (.ack true) → Posted fromSlice fromSliceError sub chain posted i) :
    ∀ e ∈ c'.log, e.event = .pubsubAcked →
      Posted fromSlice fromSliceError sub chain posted e.delivery := by
  intro e he hacked
  rcases mem_log_of_step hs he hacked with hold | hcall
  · exact h e hold hacked
  · exact hb e.delivery hcall

omit [DecidableEq ι] in
theorem inv_init (ackDeadlineSecs : ℤ) :
    Inv fromSlice fromSliceError sub chain concurrentQueueItems (init ι ackDeadlineSecs) where
  consumer := GcpConsumer.inv_init sub ackDeadlineSecs
  jobs _ h := by cases h
  acked _ h := by cases h
  limit := Or.inr (Nat.zero_le _)

omit [DecidableEq ι] in
/-- A message in flight moves on. -/
theorem sound_set {posted posted' : List (PostEvents × Exchange)} {jobs : List (Job ι)} {n : ℕ}
    {job : Job ι} (h : ∀ job ∈ jobs, job.Sound sub chain posted) (hsub : posted ⊆ posted')
    (hjob : job.Sound sub chain posted') :
    ∀ job' ∈ jobs.set n job, job'.Sound sub chain posted' := by
  intro job' hmem
  rcases List.mem_or_eq_of_mem_set hmem with hold | rfl
  · exact (h job' hold).mono hsub
  · exact hjob

theorem inv_step (h : Inv fromSlice fromSliceError sub chain concurrentQueueItems s)
    (hs : step fromSlice fromSliceError sub chain concurrentQueueItems s a = some s') :
    Inv fromSlice fromSliceError sub chain concurrentQueueItems s' := by
  cases moves_of_step hs with
  | consume b hack hconsumer hin hposted =>
    refine ⟨GcpConsumer.inv_step h.consumer hconsumer, ?_, ?_, ?_⟩
    · rw [hposted]
      rcases hin with hin | hin <;> rw [hin]
      · exact h.jobs
      · simp
    · rw [hposted]
      exact acked_of_step hconsumer h.acked fun i hi => absurd hi (hack i)
    · rcases hin with hin | hin <;> rw [hin]
      · exact h.limit
      · exact Or.inr (Nat.zero_le _)
  | receive i m hdec hroom hconsumer hin hposted =>
    refine ⟨GcpConsumer.inv_step h.consumer hconsumer, ?_, ?_, ?_⟩
    · rw [hposted, hin]
      intro job hjob
      rcases List.mem_append.1 hjob with hjob | hjob
      · exact h.jobs job hjob
      · cases List.mem_singleton.1 hjob
        exact ⟨⟨m, hdec, rfl⟩, fun x hx => (by cases hx)⟩
    · rw [hposted]
      exact acked_of_step hconsumer h.acked fun j hj => (by cases hj)
    · rw [hin, List.length_append]
      exact hroom.imp id fun hlt => by simpa using hlt
  | receiveErr hconsumer hin hposted =>
    exact ⟨hconsumer ▸ h.consumer, by rw [hin, hposted]; exact h.jobs,
      by rw [hconsumer, hposted]; exact h.acked, by rw [hin]; exact h.limit⟩
  | exchange n i event x hn hconsumer hin hposted =>
    have hjob := h.jobs _ (List.mem_of_getElem? hn)
    have hsub : s.posted ⊆ s'.posted := by
      rw [hposted]
      exact List.subset_cons_self _ _
    refine ⟨hconsumer ▸ h.consumer, ?_, ?_, ?_⟩
    · rw [hin]
      refine sound_set h.jobs hsub ⟨hjob.decoded, fun y hy => ?_⟩
      cases hy
      rw [hposted]
      exact List.mem_cons_self
    · rw [hconsumer]
      exact fun e he hacked => (h.acked e he hacked).mono hsub
    · rw [hin, List.length_set]
      exact h.limit
  | acked n i event x hn hsent hconsumer hin hposted =>
    have hjob := h.jobs _ (List.mem_of_getElem? hn)
    refine ⟨GcpConsumer.inv_step h.consumer hconsumer, by rw [hin, hposted]; exact h.jobs, ?_,
      by rw [hin]; exact h.limit⟩
    rw [hposted]
    refine acked_of_step hconsumer h.acked fun j hj => ?_
    cases hj
    exact posted_of_sent hjob hsent
  | finish n i event x c hn hack hconsumer hin hposted =>
    have hjob := h.jobs _ (List.mem_of_getElem? hn)
    refine ⟨GcpConsumer.inv_step h.consumer hconsumer, ?_, ?_, ?_⟩
    · rw [hin, hposted]
      exact sound_set h.jobs (List.Subset.refl _) ⟨hjob.decoded, fun y hy => (by cases hy)⟩
    · rw [hposted]
      refine acked_of_step hconsumer h.acked fun j hj => ?_
      cases hj
      exact absurd rfl hack
    · rw [hin, List.length_set]
      exact h.limit
  | drop n i hconsumer hin hposted =>
    refine ⟨?_, ?_, ?_, ?_⟩
    · rcases hconsumer with hconsumer | hconsumer
      · exact GcpConsumer.inv_step h.consumer hconsumer
      · exact hconsumer ▸ h.consumer
    · rw [hin, hposted]
      exact fun job hjob => h.jobs job (List.mem_of_mem_eraseIdx hjob)
    · rw [hposted]
      rcases hconsumer with hconsumer | hconsumer
      · exact acked_of_step hconsumer h.acked fun j hj => (by cases hj)
      · rw [hconsumer]
        exact h.acked
    · rw [hin]
      exact h.limit.imp id fun hle => (List.length_eraseIdx_le _ _).trans hle

theorem inv_of_reach {ackDeadlineSecs : ℤ}
    (h : Reach (ofFn (step fromSlice fromSliceError sub chain concurrentQueueItems))
      (init ι ackDeadlineSecs) s) :
    Inv fromSlice fromSliceError sub chain concurrentQueueItems s :=
  h.invariant (inv_init ackDeadlineSecs) fun _ _ _ => inv_step

omit [DecidableEq ι] in
/-- Whoever acknowledged a delivery to Pub/Sub, one with its `Msg-Id` was posted. -/
theorem exists_posted (h : Inv fromSlice fromSliceError sub chain concurrentQueueItems s)
    {e : GcpConsumer.Entry ι} (he : e ∈ s.consumer.log)
    (hgone : e.event = .pubsubAcked ∨ e.event = .skipped) :
    ∃ j, sub.msgId j = sub.msgId e.delivery ∧
      Posted fromSlice fromSliceError sub chain s.posted j := by
  rcases hgone with hacked | hskipped
  · exact ⟨e.delivery, rfl, h.acked e he hacked⟩
  · obtain ⟨later, earlier, hlog⟩ := List.append_of_mem he
    obtain ⟨j, hid, hack⟩ := (hlog ▸ h.consumer.justified).of_split hskipped
    obtain ⟨t, ht⟩ := hack.pubsubAcked
    refine ⟨j, hid, h.acked ⟨j, .pubsubAcked, t⟩ ?_ rfl⟩
    rw [hlog]
    exact List.mem_append_right _ (List.mem_cons_of_mem _ ht)

end Moves

/-! ### The events that were published -/

/-- The subscription of the events topic, with what the publisher sent as each delivery. -/
def published (name : String) (context : ι → List (String × String))
    (message : ι → PublishMessage Event) : Subscription ι Event where
  name
  deserialize bytes := ((MessageContent.borsh Event.borsh).deserialize bytes).map fun p => p.1.data
  message i := Queue.toPubsubMessage Event.borsh (context i) (message i)

section Published

variable {fromSlice : List UInt8 → Option PublishEventsResult}
  {fromSliceError : List UInt8 → Option ErrorResponse} {name chain : String}
  {context : ι → List (String × String)} {message : ι → PublishMessage Event}
  {concurrentQueueItems : ℕ} {s : State ι}

omit [DecidableEq ι] in
theorem decoded_published {i : ι} (hevent : Event.borsh.Fits (message i).data)
    (hcontext : ContextFits (context i) (message i).deduplicationId) :
    (published name context message).decoded i =
      .ok { id := (message i).deduplicationId
            decoded := (message i).data
            subscriptionName := name } :=
  (Queue.readBack Event.borsh hevent).gcp (context i) (message i).deduplicationId name hcontext

omit [DecidableEq ι] in
/-- The event of a delivery that was acknowledged was posted. -/
theorem posted_of_gone (hevent : ∀ i, Event.borsh.Fits (message i).data)
    (hcontext : ∀ i, ContextFits (context i) (message i).deduplicationId)
    (hids : ∀ i j, (message i).deduplicationId = (message j).deduplicationId →
      (message i).data = (message j).data)
    (h : Inv fromSlice fromSliceError (published name context message) chain concurrentQueueItems s)
    {e : GcpConsumer.Entry ι} (he : e ∈ s.consumer.log)
    (hgone : e.event = .pubsubAcked ∨ e.event = .skipped) :
    ∃ x r, (⟨.new chain, ⟨[(message e.delivery).data]⟩⟩, x) ∈ s.posted ∧
      resultsOf fromSlice fromSliceError x = some r := by
  obtain ⟨j, hid, m, hdec, x, r, hmem, hr⟩ := exists_posted h he hgone
  rw [decoded_published (hevent j) (hcontext j)] at hdec
  cases hdec
  have hsame : (message j).data = (message e.delivery).data := by
    refine hids j e.delivery ?_
    simpa [Subscription.msgId, GcpConsumer.PubsubMessage.msgId, published, Queue.toPubsubMessage]
      using hid
  exact ⟨x, r, by rwa [← hsame], hr⟩

/-- **An event leaves Pub/Sub only after the API was told of it.**  Whoever acknowledged a delivery,
its event was posted alone and answered with a success that decodes, if the `Msg-Id`s tell events
apart; and no more messages are worked on at once than configured. -/
theorem event_leaves_only_posted {ackDeadlineSecs : ℤ}
    (hevent : ∀ i, Event.borsh.Fits (message i).data)
    (hcontext : ∀ i, ContextFits (context i) (message i).deduplicationId)
    (hids : ∀ i j, (message i).deduplicationId = (message j).deduplicationId →
      (message i).data = (message j).data)
    (h : Reach (ofFn (step fromSlice fromSliceError (published name context message) chain
      concurrentQueueItems)) (init ι ackDeadlineSecs) s) :
    (∀ e ∈ s.consumer.log, e.event = .pubsubAcked ∨ e.event = .skipped →
      ∃ x r, (⟨.new chain, ⟨[(message e.delivery).data]⟩⟩, x) ∈ s.posted ∧
        resultsOf fromSlice fromSliceError x = some r) ∧
      (concurrentQueueItems = 0 ∨ s.inFlight.length ≤ concurrentQueueItems) := by
  have hinv := inv_of_reach h
  exact ⟨fun _ he hgone => posted_of_gone hevent hcontext hids hinv he hgone, hinv.limit⟩

end Published

/-! ### An event that is delivered again -/

/-- A signers rotation, delivered as often as one likes. -/
def rotations (_ : Bool) : PublishMessage Event := ⟨"0xab-0", rotation⟩

theorem fits_rotation : Event.borsh.Fits rotation := by
  have hid : Borsh.string.Fits "0xab-0" := Borsh.fits_string.mpr (by decide)
  exact ⟨⟨hid, fun _ h => (by cases h)⟩, fun _ h => (by cases h), BigInt.fits_borsh _⟩

/-- The event is posted and accepted; when it is delivered once more it is a duplicate. -/
def deliveredTwice : List (Action Bool) :=
  [.deliver, .decode, .isProcessed true, .forwardMessage true].map (.callback false) ++
    [.receive false, .exchange 0 (.answered ⟨200, some acceptBody⟩), .ack 0 true, .setEx 0 .ok,
      .drop 0] ++
    [.deliver, .decode, .isProcessed true, .ackDuplicate true].map (.callback true)

/-- The theorem on that run. -/
theorem event_leaves_only_posted_twice :
    ∃ s : State Bool, s.consumer.log.map GcpConsumer.Entry.event =
        [.skipped, .acked, .pubsubAcked, .handed] ∧
      ((∀ e ∈ s.consumer.log, e.event = .pubsubAcked ∨ e.event = .skipped →
        ∃ x r, (⟨.new "solana", ⟨[rotation]⟩⟩, x) ∈ s.posted ∧
          resultsOf decodeResults decodeError x = some r) ∧
        (1 = 0 ∨ s.inFlight.length ≤ 1)) := by
  obtain ⟨s, hs, hp⟩ := exists_reach_of_exec
    (step decodeResults decodeError (published "events" (fun _ => []) rotations) "solana" 1)
    (init Bool 30) deliveredTwice
    (fun s => s.consumer.log.map GcpConsumer.Entry.event ==
      [.skipped, .acked, .pubsubAcked, .handed]) (by decide +kernel)
  have hid : Borsh.string.Fits "0xab-0" := Borsh.fits_string.mpr (by decide)
  refine ⟨s, by simpa using hp, event_leaves_only_posted (fun _ => fits_rotation)
    (fun _ => ⟨by decide, fun _ h => (by cases h), hid⟩) (fun _ _ _ => rfl) hs⟩

end Gcp
end Ingester
end RelayerCore
