import Mathlib.Data.String.Basic
import RelayerCore.AmplifierApi.Limits
import RelayerCore.GcpConsumer.Model

/-!
# From the publisher to the consumer (`infrastructure/src/gcp/publisher.rs`, `gcp/util.rs`,
`gcp/consumer.rs`, `nats/publisher.rs`, `nats/consumer.rs`)

Pub/Sub carries a value in an envelope, with headers for the tracing context, and the deduplication
id as an attribute; NATS carries the bare value.  Both consumers decode the front of what they
receive.  The encoding of a value is a parameter; it is then the one of events and of tasks.
-/

namespace RelayerCore
namespace Queue

open GcpConsumer

/-- `HashMap<String, String>`. -/
abbrev Headers := Finmap fun _ : String => String

structure PublishMessage (T : Type) where
  deduplicationId : String
  data : T

/-- Holds opentelemetry metadata. -/
structure MessageContent (T : Type) where
  headers : Headers
  data : T

section Envelope

variable {T : Type}

def MessageContent.new (data : T) : MessageContent T := ⟨∅, data⟩

def MessageContent.set (content : MessageContent T) (key value : String) : MessageContent T :=
  { content with headers := content.headers.insert key value }

/-- The propagator sets the headers of the current context, whatever they are. -/
def MessageContent.injectContext (content : MessageContent T) (context : List (String × String)) :
    MessageContent T :=
  context.foldl (fun content header => content.set header.1 header.2) content

def MessageContent.borsh (c : Codec T) : Codec (MessageContent T) :=
  ((Borsh.map Borsh.string Borsh.string).pair c).via (fun m => (m.headers, m.data))
    (fun (headers, data) => ⟨headers, data⟩) fun _ => rfl

/-- The envelope of a message. -/
def envelope (context : List (String × String)) (msg : PublishMessage T) : MessageContent T :=
  ((MessageContent.new msg.data).injectContext context).set "correlation-id" msg.deduplicationId

def toPubsubMessage (c : Codec T) (context : List (String × String)) (msg : PublishMessage T) :
    PubsubMessage where
  data := (MessageContent.borsh c).serialize (envelope context msg)
  attributes := [(MSG_ID, msg.deduplicationId)]

/-- `GcpMessage::decode`; what lies behind the envelope is not looked at. -/
def decodeGcp (c : Codec T) (subscriptionName : String) (msg : PubsubMessage) :
    Except DecodeError (GcpMessage T) :=
  GcpConsumer.decode
    (fun bytes => ((MessageContent.borsh c).deserialize bytes).map fun p => p.1.data)
    subscriptionName msg

/-- The payload of a NATS message. -/
def toPayload (c : Codec T) (msg : PublishMessage T) : List UInt8 := c.serialize msg.data

/-- `NatsMessage::decode`. -/
def decodeNats (c : Codec T) (payload : List UInt8) : Option T :=
  (c.deserialize payload).map Prod.fst

/-- The headers and the deduplication id have room in the envelope. -/
structure ContextFits (context : List (String × String)) (deduplicationId : String) : Prop where
  length : context.length + 1 < 2 ^ 32
  headers : ∀ header ∈ context, Borsh.string.Fits header.1 ∧ Borsh.string.Fits header.2
  deduplicationId : Borsh.string.Fits deduplicationId

/-- The consumers read back what was published. -/
structure ReadBack (c : Codec T) (v : T) : Prop where
  bytes : ∀ rest, c.deserialize (c.serialize v ++ rest) = some (v, rest)
  gcp : ∀ context deduplicationId subscriptionName, ContextFits context deduplicationId →
    decodeGcp c subscriptionName (toPubsubMessage c context ⟨deduplicationId, v⟩) =
      .ok { id := deduplicationId, decoded := v, subscriptionName }
  nats : ∀ deduplicationId, decodeNats c (toPayload c ⟨deduplicationId, v⟩) = some v

/-! ### The headers -/

theorem data_injectContext (content : MessageContent T) (context : List (String × String)) :
    (content.injectContext context).data = content.data := by
  induction context generalizing content with
  | nil => rfl
  | cons header context ih => exact ih (content.set header.1 header.2)

/-- Headers are limited in number and size. -/
structure HeadersFit (headers : Headers) (n : ℕ) : Prop where
  card : headers.keys.card ≤ n
  fits : ∀ key value, headers.lookup key = some value →
    Borsh.string.Fits key ∧ Borsh.string.Fits value

theorem HeadersFit.insert {headers : Headers} {n : ℕ} {key value : String}
    (h : HeadersFit headers n) (hkey : Borsh.string.Fits key) (hvalue : Borsh.string.Fits value) :
    HeadersFit (headers.insert key value) (n + 1) := by
  refine ⟨?_, fun key' value' hlookup => ?_⟩
  · have hsub : (headers.insert key value).keys ⊆ Insert.insert key headers.keys := by
      intro key' hmem
      rw [Finmap.mem_keys, Finmap.mem_insert] at hmem
      rwa [Finset.mem_insert, Finmap.mem_keys]
    calc (headers.insert key value).keys.card
        ≤ (Insert.insert key headers.keys).card := Finset.card_le_card hsub
      _ ≤ headers.keys.card + 1 := Finset.card_insert_le _ _
      _ ≤ n + 1 := Nat.succ_le_succ h.card
  · by_cases heq : key' = key
    · subst heq
      rw [Finmap.lookup_insert] at hlookup
      cases hlookup
      exact ⟨hkey, hvalue⟩
    · rw [Finmap.lookup_insert_of_ne _ heq] at hlookup
      exact h.fits key' value' hlookup

theorem HeadersFit.injectContext {content : MessageContent T} {n : ℕ}
    {context : List (String × String)} (h : HeadersFit content.headers n)
    (hcontext : ∀ header ∈ context, Borsh.string.Fits header.1 ∧ Borsh.string.Fits header.2) :
    HeadersFit (content.injectContext context).headers (n + context.length) := by
  induction context generalizing content n with
  | nil => exact h
  | cons header context ih =>
    obtain ⟨hheader, hrest⟩ := List.forall_mem_cons.mp hcontext
    have hset : HeadersFit (content.set header.1 header.2).headers (n + 1) :=
      h.insert hheader.1 hheader.2
    have hlength : n + (header :: context).length = n + 1 + context.length := by
      rw [List.length_cons]
      omega
    rw [hlength]
    exact ih hset hrest

theorem fits_envelope {c : Codec T} {v : T} (h : c.Fits v) {context : List (String × String)}
    {deduplicationId : String} (hcontext : ContextFits context deduplicationId) :
    (MessageContent.borsh c).Fits (envelope context ⟨deduplicationId, v⟩) := by
  have hempty : HeadersFit (MessageContent.new v).headers 0 := ⟨le_refl 0, fun _ _ hno => by cases hno⟩
  have hkey : Borsh.string.Fits "correlation-id" := Borsh.fits_string.mpr (by decide)
  have hheaders := (hempty.injectContext hcontext.headers).insert hkey hcontext.deduplicationId
  refine ⟨Borsh.fits_map (lt_of_le_of_lt hheaders.card ?_) hheaders.fits, ?_⟩
  · rw [Nat.zero_add]
    exact hcontext.length
  · show c.Fits ((MessageContent.new v).injectContext context).data
    rw [data_injectContext]
    exact h

/-! ### The round trip -/

theorem readBack (c : Codec T) {v : T} (h : c.Fits v) : ReadBack c v := by
  refine ⟨c.deserialize_serialize v h, fun context deduplicationId subscriptionName hcontext => ?_,
    fun deduplicationId => ?_⟩
  · have hbytes := (MessageContent.borsh c).deserialize_serialize _ (fits_envelope h hcontext) []
    have hdata : (envelope context ⟨deduplicationId, v⟩).data = v :=
      data_injectContext _ _
    rw [List.append_nil] at hbytes
    simp [decodeGcp, GcpConsumer.decode, PubsubMessage.msgId, toPubsubMessage, hbytes, hdata]
  · have hbytes := c.deserialize_serialize v h []
    rw [List.append_nil] at hbytes
    simp [decodeNats, toPayload, hbytes]

end Envelope

/-- **What is published is what is consumed**, for every event and every task, through both
queues. -/
theorem published_is_consumed :
    (∀ v, Event.borsh.Fits v → ReadBack Event.borsh v) ∧
      ∀ v, TaskItem.borsh.Fits v → ReadBack TaskItem.borsh v :=
  ⟨fun _ h => readBack Event.borsh h, fun _ h => readBack TaskItem.borsh h⟩

/-- An event with lengths below `2 ^ 32` and valid timestamps is read back. -/
theorem readBack_event {v : Event} (hlengths : ∀ n ∈ v.lengths, n < 2 ^ 32)
    (htimestamps : ∀ t ∈ v.timestamps, t.Valid) : ReadBack Event.borsh v :=
  readBack Event.borsh ((Event.fits_borsh_iff v).2 ⟨hlengths, htimestamps⟩)

/-- So is such a task. -/
theorem readBack_taskItem {v : TaskItem} (hlengths : ∀ n ∈ v.task.lengths, n < 2 ^ 32)
    (htimestamp : v.timestamp.Valid) : ReadBack TaskItem.borsh v :=
  readBack TaskItem.borsh ((TaskItem.fits_borsh_iff v).2 ⟨hlengths, htimestamp⟩)

/-- A credit of the least amount there is, in a leap second. -/
def leapCredit : GasCreditEvent where
  base := ⟨⟨"0x1f-1"⟩, some ⟨none, some ⟨1483228799, 1500000000⟩, none, some true, ()⟩⟩
  messageId := ⟨"0x1f-2"⟩
  refundAddress := "0xea"
  payment := ⟨none, ⟨-2 ^ 127, le_refl _, by norm_num⟩⟩

/-- The refund of a message, in the second after it. -/
def leapRefund : TaskItem where
  id := ⟨7⟩
  timestamp := ⟨1483228800, 999999999⟩
  task := .refund ⟨⟨⟨"0x1f-2"⟩, "solana", "0xab", "0xcd", [0, 255]⟩, "0xea",
    ⟨some ⟨"usdc"⟩, ⟨2 ^ 127 - 1, by norm_num, by norm_num⟩⟩⟩

/-- The theorem on the credit and on the refund. -/
theorem published_is_consumed_leap_credit :
    ReadBack Event.borsh (.gasCredit leapCredit) ∧ ReadBack TaskItem.borsh leapRefund := by
  refine ⟨published_is_consumed.1 _ ((Event.fits_borsh_iff _).2 ⟨?_, ?_⟩),
    published_is_consumed.2 _ ((TaskItem.fits_borsh_iff _).2 ⟨?_, ?_⟩)⟩
  all_goals decide

end Queue
end RelayerCore
