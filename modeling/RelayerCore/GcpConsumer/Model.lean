import RelayerCore.Lib.Machine
import RelayerCore.Lib.ExpiringStore

/-!
# The Pub/Sub consumer and its deduplication (`infrastructure/src/gcp/consumer.rs`)

A receive callback decodes a message, asks Redis whether its `Msg-Id` is marked as processed, and
either acknowledges it as a duplicate or hands it, through a channel, to the application.  The
application acknowledges it later: first to Pub/Sub, then by a marker that Redis keeps for ten
minutes.

The deliveries of one subscription are an arbitrary family, `message i` being the message delivered
as `i`: several deliveries may carry one message, and several messages one `Msg-Id`.  `step` lets
every delivery take its next step at any time; each call of Pub/Sub or Redis may fail, and a failed
write may have been applied.
-/

namespace RelayerCore
namespace GcpConsumer

open Machine

def MSG_ID : String := "Msg-Id"

def TEN_MINUTES_IN_SECS : ℕ := 60 * 10

/-- What Pub/Sub delivers. -/
structure PubsubMessage where
  data : List UInt8
  attributes : List (String × String)
  deriving DecidableEq

/-- The errors of `decode`. -/
inductive DecodeError
  | msgIdNotSet
  | deserialize
  deriving DecidableEq

/-- A decoded message. -/
structure GcpMessage (T : Type) where
  id : String
  decoded : T
  subscriptionName : String

/-- `GcpMessage::redis_id_key`. -/
def redisIdKey (subscriptionName id : String) : String := "dedup:" ++ subscriptionName ++ ":id:" ++ id

def PubsubMessage.msgId (msg : PubsubMessage) : Option String := msg.attributes.lookup MSG_ID

/-- `GcpMessage::decode`. -/
def decode {T : Type} (deserialize : List UInt8 → Option T) (subscriptionName : String)
    (msg : PubsubMessage) : Except DecodeError (GcpMessage T) :=
  match msg.msgId with
  | none => .error .msgIdNotSet
  | some id =>
    match deserialize msg.data with
    | none => .error .deserialize
    | some decoded => .ok { id, decoded, subscriptionName }

/-- The deadline a `Progress` asks for: `checked_mul(2)` in `i32`, or the old one. -/
def extendDeadline (ackDeadlineSecs : ℤ) : ℤ :=
  if -2 ^ 31 ≤ ackDeadlineSecs * 2 ∧ ackDeadlineSecs * 2 < 2 ^ 31 then ackDeadlineSecs * 2
  else ackDeadlineSecs

/-- Where a delivery stands. -/
inductive Phase
  | absent
  /-- in the callback, not decoded yet -/
  | received
  /-- decoded, before the `EXISTS` -/
  | checking
  /-- marked as processed, before the consumer's own acknowledgement -/
  | duplicate
  /-- not marked, about to be sent into the channel -/
  | forwarding
  /-- about to send an error into the channel -/
  | failing
  | queued
  /-- in the application's hands -/
  | handed
  /-- acknowledged to Pub/Sub by the application, before the `SETEX` -/
  | marking
  | acked
  | skipped
  | failed
  /-- dropped by the application, or lost in a crash -/
  | gone
  deriving DecidableEq

/-- The reply of Redis to a `SETEX`. -/
inductive Reply
  | ok
  | err (applied : Bool)
  deriving DecidableEq

/-- The calls that move a delivery on; a flag says whether the other side answered with success. -/
inductive Call
  | deliver
  | decode
  | isProcessed (ok : Bool)
  | ackDuplicate (ok : Bool)
  | forwardMessage (sent : Bool)
  | receive
  | ack (ok : Bool)
  | setEx (reply : Reply)
  | nak (ok : Bool)
  | progress (ok : Bool)
  | drop
  deriving DecidableEq

/-- What is observed of a delivery. -/
inductive Event
  | decodeFailed
  | checkFailed
  /-- the consumer acknowledged it to Pub/Sub as a duplicate -/
  | skipped
  | handed
  /-- Pub/Sub took the application's `Ack` -/
  | pubsubAcked
  /-- the application's `Ack` returned `Ok` -/
  | acked
  /-- the application's `Ack` failed although its marker was written -/
  | replyLost
  deriving DecidableEq

/-- The receive callback, `forward_message` and `GcpMessage::ack`, one call at a time: the next
phase of a delivery and what is observed. -/
def move (decodes marked : Bool) : Phase → Call → Option (Phase × Option Event)
  | .absent, .deliver => some (.received, none)
  | .received, .decode =>
    if decodes then some (.checking, none) else some (.failing, some .decodeFailed)
  | .checking, .isProcessed true =>
    if marked then some (.duplicate, none) else some (.forwarding, none)
  | .checking, .isProcessed false => some (.failing, some .checkFailed)
  | .duplicate, .ackDuplicate true => some (.skipped, some .skipped)
  | .duplicate, .ackDuplicate false => some (.failing, none)
  | .forwarding, .forwardMessage sent => some (if sent then .queued else .gone, none)
  | .failing, .forwardMessage _ => some (.failed, none)
  | .queued, .receive => some (.handed, some .handed)
  | .handed, .ack true => some (.marking, some .pubsubAcked)
  | .handed, .ack false => some (.handed, none)
  | .marking, .setEx .ok => some (.acked, some .acked)
  | .marking, .setEx (.err applied) => some (.handed, if applied then some .replyLost else none)
  | .handed, .nak _ => some (.handed, none)
  | .handed, .progress _ => some (.handed, none)
  | .handed, .drop => some (.gone, none)
  | _, _ => none

/-- The call leaves a marker in Redis. -/
def Call.marks : Call → Bool
  | .setEx .ok => true
  | .setEx (.err applied) => applied
  | _ => false

/-- A crash loses what the process has in memory. -/
def Phase.crash : Phase → Phase
  | .absent => .absent
  | .acked => .acked
  | .skipped => .skipped
  | .failed => .failed
  | _ => .gone

structure Entry (ι : Type) where
  delivery : ι
  event : Event
  time : ℕ
  deriving DecidableEq

/-- The clock in seconds, the markers, the deliveries with their deadlines, and what was observed,
latest first. -/
structure State (ι : Type) where
  now : ℕ
  redis : ExpiringStore String
  phase : ι → Phase
  ackDeadlineSecs : ι → ℤ
  log : List (Entry ι)

def init (ι : Type) (ackDeadlineSecs : ℤ) : State ι :=
  { now := 0, redis := .empty, phase := fun _ => .absent
    ackDeadlineSecs := fun _ => ackDeadlineSecs, log := [] }

inductive Action (ι : Type)
  | elapse (secs : ℕ)
  | call (i : ι) (c : Call)
  | crash

/-- The consumer of one subscription, and what is delivered to it. -/
structure Subscription (ι T : Type) where
  name : String
  deserialize : List UInt8 → Option T
  message : ι → PubsubMessage

namespace Subscription

variable {ι T : Type} (sub : Subscription ι T)

def msgId (i : ι) : Option String := (sub.message i).msgId

def decoded (i : ι) : Except DecodeError (GcpMessage T) :=
  decode sub.deserialize sub.name (sub.message i)

def decodes (i : ι) : Bool := (sub.decoded i).toBool

/-- The Redis key of a delivery that decodes. -/
def key (i : ι) : String :=
  match sub.decoded i with
  | .ok m => redisIdKey m.subscriptionName m.id
  | .error _ => ""

end Subscription

/-! ### Keys and ids -/

variable {ι T : Type} {sub : Subscription ι T}

theorem decode_eq_ok {msg : PubsubMessage} {m : GcpMessage T} {name : String}
    {deserialize : List UInt8 → Option T} (h : decode deserialize name msg = .ok m) :
    msg.msgId = some m.id ∧ m.subscriptionName = name := by
  unfold decode at h
  split at h
  · cases h
  · rename_i id hid
    split at h <;> cases h
    exact ⟨hid, rfl⟩

/-- The keys of one subscription differ only in the id. -/
theorem redisIdKey_inj {name id id' : String} (h : redisIdKey name id = redisIdKey name id') :
    id = id' := (String.append_right_inj _).1 h

theorem exists_key {i : ι} (h : sub.decodes i = true) :
    ∃ id, sub.msgId i = some id ∧ sub.key i = redisIdKey sub.name id := by
  unfold Subscription.decodes at h
  unfold Subscription.key
  cases hd : sub.decoded i with
  | error err => simp [hd, Except.toBool] at h
  | ok m =>
    obtain ⟨hid, hname⟩ := decode_eq_ok hd
    exact ⟨m.id, hid, by simp only [hname]⟩

/-- Deliveries that decode share a key exactly if they share their `Msg-Id`. -/
theorem key_eq_iff {i j : ι} (hi : sub.decodes i = true) (hj : sub.decodes j = true) :
    sub.key i = sub.key j ↔ sub.msgId i = sub.msgId j := by
  obtain ⟨id, hid, hkey⟩ := exists_key hi
  obtain ⟨id', hid', hkey'⟩ := exists_key hj
  rw [hid, hid', hkey, hkey']
  constructor
  · intro h
    rw [redisIdKey_inj h]
  · intro h
    rw [Option.some.inj h]

/-! ### Steps -/

/-- The marker of a delivery exists. -/
def State.marked (sub : Subscription ι T) (s : State ι) (i : ι) : Bool :=
  s.redis.contains (sub.key i) s.now

variable [DecidableEq ι]

/-- Delivery `i` moves on by a call. -/
def State.advance (s : State ι) (key : String) (i : ι) (c : Call) (phase : Phase)
    (event : Option Event) : State ι :=
  { s with
    redis := if c.marks then s.redis.setEx key s.now TEN_MINUTES_IN_SECS else s.redis
    phase := Function.update s.phase i phase
    ackDeadlineSecs := match c with
      | .progress _ =>
        Function.update s.ackDeadlineSecs i (extendDeadline (s.ackDeadlineSecs i))
      | _ => s.ackDeadlineSecs
    log := (event.map fun event => ⟨i, event, s.now⟩).toList ++ s.log }

/-- One step: time passes, the process crashes, or a delivery moves on. -/
def step (sub : Subscription ι T) (s : State ι) : Action ι → Option (State ι)
  | .elapse secs => some { s with now := s.now + secs }
  | .crash => some { s with phase := fun i => (s.phase i).crash }
  | .call i c =>
    (move (sub.decodes i) (s.marked sub i) (s.phase i) c).map fun next =>
      s.advance (sub.key i) i c next.1 next.2

variable {s s' : State ι}

/-- What a step can do. -/
theorem step_cases {a : Action ι} (hs : step sub s a = some s') :
    (∃ secs, s' = { s with now := s.now + secs }) ∨
    s' = { s with phase := fun i => (s.phase i).crash } ∨
    ∃ i c p e, a = .call i c ∧ move (sub.decodes i) (s.marked sub i) (s.phase i) c = some (p, e) ∧
      s' = s.advance (sub.key i) i c p e := by
  cases a with
  | elapse secs => exact Or.inl ⟨secs, (Option.some.inj hs).symm⟩
  | crash => exact Or.inr (Or.inl (Option.some.inj hs).symm)
  | call i c =>
    obtain ⟨⟨p, e⟩, hmove, rfl⟩ := Option.map_eq_some_iff.1 hs
    exact Or.inr (Or.inr ⟨i, c, p, e, rfl, hmove, rfl⟩)

section Advance

variable {key : String} {i j : ι} {c : Call} {p : Phase} {e : Option Event}

@[simp] theorem advance_phase_self : (s.advance key i c p e).phase i = p := by
  simp [State.advance]

theorem advance_phase_of_ne (h : j ≠ i) : (s.advance key i c p e).phase j = s.phase j := by
  simp [State.advance, h]

/-- The phase of a delivery after a call is the new one if the call was its own, else the old. -/
theorem of_advance_phase {P : Phase → Prop} (h : P ((s.advance key i c p e).phase j)) :
    j = i ∧ P p ∨ j ≠ i ∧ P (s.phase j) := by
  by_cases hji : j = i
  · subst hji
    rw [advance_phase_self] at h
    exact Or.inl ⟨rfl, h⟩
  · rw [advance_phase_of_ne hji] at h
    exact Or.inr ⟨hji, h⟩

theorem mem_advance_log {x : Entry ι} :
    x ∈ (s.advance key i c p e).log ↔ (∃ v, e = some v ∧ x = ⟨i, v, s.now⟩) ∨ x ∈ s.log := by
  cases e <;> simp [State.advance]

end Advance

/-! ### What a call can do -/

/-- The phases only a delivery that decodes gets to. -/
def Phase.pastDecode : Phase → Bool
  | .absent | .received | .failing | .failed | .gone => false
  | _ => true

/-- The phases of a delivery nothing has been observed of. -/
def Phase.fresh : Phase → Bool
  | .absent | .received | .checking => true
  | _ => false

/-- The phases a delivery ends in after its decoding or its check failed. -/
def Phase.failedCheck : Phase → Bool
  | .failing | .failed | .gone => true
  | _ => false

/-- The phases of a delivery that passed the check and may still be acknowledged. -/
def Phase.isOpen : Phase → Bool
  | .forwarding | .queued | .handed | .marking => true
  | _ => false

/-- The events of a delivery that was acknowledged or handed over. -/
def Event.letThrough : Event → Bool
  | .decodeFailed | .checkFailed => false
  | _ => true

/-- What a call says about the phase before it, the phase after it and the event observed. -/
structure MoveSpec (decodes marked : Bool) (p : Phase) (c : Call) (p' : Phase) (e : Option Event) :
    Prop where
  pastDecode : p'.pastDecode = true → p.pastDecode = true ∨ decodes = true
  fresh : p'.fresh = true → p.fresh = true ∧ e = none
  failedCheck : p.failedCheck = true → p'.failedCheck = true ∧ e = none
  isOpen : p'.isOpen = true → p.isOpen = true ∨
    c = .isProcessed true ∧ p = .checking ∧ marked = false
  duplicate : p' = .duplicate → p = .checking ∧ marked = true
  handed : p' = .handed ∨ p' = .marking → e = some .handed ∨ p = .handed ∨ p = .marking
  marking : p' = .marking → e = some .pubsubAcked
  marks : c.marks = true → p = .marking ∧ (e = some .acked ∨ e = some .replyLost)
  checkFailed : e = some .checkFailed → p.fresh = true ∧ p'.failedCheck = true
  skipped : e = some .skipped → p = .duplicate
  acked : e = some .acked → p.isOpen = true ∧ p'.isOpen = false ∧ c.marks = true
  letThrough : ∀ v ∈ e, v.letThrough = true → p.pastDecode = true ∧ p.fresh = false

theorem move_spec {d m : Bool} {p p' : Phase} {c : Call} {e : Option Event}
    (h : move d m p c = some (p', e)) : MoveSpec d m p c p' e := by
  unfold move at h
  split at h <;> (try split_ifs at h) <;> cases h <;> constructor <;>
    simp_all [Phase.pastDecode, Phase.fresh, Phase.failedCheck, Phase.isOpen, Call.marks,
      Event.letThrough]

/-- Whatever gets past the decoding decodes. -/
def Decoded (sub : Subscription ι T) (s : State ι) : Prop :=
  ∀ i, (s.phase i).pastDecode = true → sub.decodes i = true

theorem decoded_step {a : Action ι} (h : Decoded sub s) (hs : step sub s a = some s') :
    Decoded sub s' := by
  rcases step_cases hs with ⟨secs, rfl⟩ | rfl | ⟨i, c, p, e, -, hmove, rfl⟩
  · exact h
  · intro i hi
    refine h i ?_
    show (s.phase i).pastDecode = true
    cases hp : s.phase i <;> simp_all [Phase.crash, Phase.pastDecode]
  · intro j hj
    rcases of_advance_phase (P := fun q => q.pastDecode = true) hj with ⟨rfl, hp⟩ | ⟨-, hj⟩
    · exact ((move_spec hmove).pastDecode hp).elim (h j) id
    · exact h j hj

/-! ### Two deliveries of one message -/

/-- No headers and one byte, as a queue message. -/
def byteMessage : PubsubMessage := ⟨[0, 0, 0, 0, 7], [(MSG_ID, "event-1")]⟩

/-- A queue of bytes on which one message is delivered twice. -/
def eventQueue : Subscription Bool UInt8 where
  name := "projects/relayer/subscriptions/events"
  deserialize bytes := if bytes = byteMessage.data then some 7 else none
  message _ := byteMessage

end GcpConsumer
end RelayerCore
