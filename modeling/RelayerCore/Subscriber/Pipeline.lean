import RelayerCore.AmplifierApi.TxEvent
import RelayerCore.GcpConsumer.Lose
import RelayerCore.Queue.Publish
import RelayerCore.Subscriber.Gcp

/-!
# Tasks on their way from the Amplifier API to the application

Any number of subscribers publish the tasks of one chain to a topic, and a consumer on a
subscription of that topic hands them to the application.  Pub/Sub delivers what the topic has
accepted, as often and in any order it likes; a delivery that nobody acknowledged it delivers
again.

The deduplication of the consumer goes by the `Msg-Id`, which is the id of the task: a task that is
dropped as a duplicate is one that the application has had.
-/

namespace RelayerCore

/-! ### The id of a task as text -/

theorem digitChar_inj : ∀ m < 16, ∀ n < 16, Nat.digitChar m = Nat.digitChar n → m = n := by decide

/-- A number below `16 ^ k` is given by its `k` digits. -/
theorem eq_of_hexDigits {m n k : ℕ} (hm : m < 16 ^ k) (hn : n < 16 ^ k)
    (h : ∀ i < k, m / 16 ^ i % 16 = n / 16 ^ i % 16) : m = n := by
  induction k generalizing m n with
  | zero => omega
  | succ k ih =>
    have hlow : m % 16 = n % 16 := by simpa using h 0 (Nat.succ_pos k)
    have hhigh : m / 16 = n / 16 := by
      refine ih (by omega) (by omega) fun i hi => ?_
      have hdigit := h (i + 1) (by omega)
      rwa [pow_succ', ← Nat.div_div_eq_div_mul, ← Nat.div_div_eq_div_mul] at hdigit
    omega

theorem hexDigits_injective {a b : BitVec 128} (h : hexDigits a = hexDigits b) : a = b := by
  refine BitVec.eq_of_toNat_eq (eq_of_hexDigits (k := 32) a.isLt b.isLt fun i hi => ?_)
  have hget := congrArg (fun l => l[31 - i]?) h
  simp only [hexDigits, List.getElem?_map, List.getElem?_range (show 31 - i < 32 by omega),
    Option.map_some, Option.some_inj, show 31 - (31 - i) = i by omega] at hget
  exact digitChar_inj _ (Nat.mod_lt _ (by decide)) _ (Nat.mod_lt _ (by decide)) hget

/-- Without its dashes a UUID is its digits. -/
theorem filter_hyphenated (id : TaskItemId) :
    id.hyphenated.filter (· != '-') = hexDigits id.uuid := by
  have hdigits : ∀ c ∈ hexDigits id.uuid, (c != '-') = true := by
    intro c hc
    obtain ⟨i, -, rfl⟩ := List.mem_map.1 hc
    exact bne_iff_ne.2 (TxEvent.digitChar_hex _ (Nat.mod_lt _ (by decide))).2.1
  unfold TaskItemId.hyphenated
  dsimp only
  generalize hexDigits id.uuid = digits at hdigits
  have hpart : ∀ l : List Char, l ⊆ digits → l.filter (· != '-') = l := fun l hl =>
    List.filter_eq_self.2 fun c hc => hdigits c (hl hc)
  have hsub : ∀ m n, (digits.drop m).take n ⊆ digits := fun m n =>
    List.Subset.trans (List.take_subset _ _) (List.drop_subset _ _)
  simp only [List.filter_append, List.filter_cons, bne_self_eq_false, Bool.false_eq_true, if_false,
    hpart _ (hsub _ _), hpart _ (List.drop_subset _ _), hpart _ (List.take_subset _ _)]
  simp only [← List.take_add, Nat.reduceAdd, List.take_append_drop]

theorem length_hyphenated (id : TaskItemId) : id.hyphenated.length = 36 := by
  have hdigits : (hexDigits id.uuid).length = 32 := by
    rw [hexDigits, List.length_map, List.length_range]
  unfold TaskItemId.hyphenated
  dsimp only
  generalize hexDigits id.uuid = digits at hdigits
  simp [hdigits]

theorem hyphenated_injective {a b : TaskItemId} (h : a.hyphenated = b.hyphenated) : a = b := by
  have hdigits := congrArg (List.filter (· != '-')) h
  rw [filter_hyphenated, filter_hyphenated] at hdigits
  cases a
  cases b
  exact congrArg TaskItemId.mk (hexDigits_injective hdigits)

namespace Subscriber
namespace Pipeline

open Machine
open GcpConsumer (Subscription Entry MSG_ID)
open Queue (PublishMessage MessageContent)

/-! ### The pipeline -/

/-- `PublishMessage::from` a task. -/
def ofTask (task : TaskItem) : PublishMessage TaskItem := ⟨String.ofList task.id.hyphenated, task⟩

theorem fits_deduplicationId (task : TaskItem) :
    Borsh.string.Fits (ofTask task).deduplicationId := by
  have hlength : (ofTask task).deduplicationId.length = 36 := by
    rw [ofTask, String.length_ofList, length_hyphenated]
  have hsize := Borsh.utf8ByteSize_le (ofTask task).deduplicationId
  rw [hlength] at hsize
  exact Borsh.fits_string.2 (hsize.trans_lt (by decide))

/-- The deliveries of a subscription: the task of each, and the headers it was published with. -/
structure Deliveries (δ : Type) where
  task : δ → TaskItem
  context : δ → List (String × String)

/-- The subscription of the tasks topic. -/
def Deliveries.subscription {δ : Type} (deliveries : Deliveries δ) (name : String) :
    Subscription δ TaskItem where
  name
  deserialize bytes :=
    ((MessageContent.borsh TaskItem.borsh).deserialize bytes).map fun p => p.1.data
  message d :=
    Queue.toPubsubMessage TaskItem.borsh (deliveries.context d) (ofTask (deliveries.task d))

structure State (ι δ : Type) where
  subscribers : Gcp.State ι
  consumer : GcpConsumer.State δ

def init (ι δ : Type) (ackDeadlineSecs : ℤ) : State ι δ :=
  { subscribers := Gcp.init ι
    consumer := GcpConsumer.init δ ackDeadlineSecs }

inductive Action (ι δ : Type)
  | subscriber (a : Gcp.Action ι)
  | consumer (a : GcpConsumer.Action δ)

variable {ι δ : Type} [DecidableEq ι] [DecidableEq δ]

section Step

variable (chain : String) (limitItems : UInt8) (name : String) (deliveries : Deliveries δ)

def State.consume (s : State ι δ) (a : GcpConsumer.Action δ) : Option (State ι δ) :=
  (GcpConsumer.step (deliveries.subscription name) s.consumer a).map fun consumer =>
    { s with consumer }

def step (s : State ι δ) : Action ι δ → Option (State ι δ)
  | .subscriber a =>
    (Gcp.step chain limitItems s.subscribers a).map fun subscribers => { s with subscribers }
  | .consumer (.call d .deliver) =>
    if deliveries.task d ∈ s.subscribers.topic then s.consume name deliveries (.call d .deliver)
    else none
  | .consumer a => s.consume name deliveries a

end Step

variable {chain : String} {limitItems : UInt8} {name : String} {deliveries : Deliveries δ}
  {s s' : State ι δ} {a : Action ι δ}

theorem subscriber_step {b : Gcp.Action ι}
    (hs : step chain limitItems name deliveries s (.subscriber b) = some s') :
    s'.consumer = s.consumer ∧
      Gcp.step chain limitItems s.subscribers b = some s'.subscribers := by
  obtain ⟨subscribers, hsub, rfl⟩ := Option.map_eq_some_iff.1 hs
  exact ⟨rfl, hsub⟩

theorem consumer_step {b : GcpConsumer.Action δ}
    (hs : step chain limitItems name deliveries s (.consumer b) = some s') :
    s'.subscribers = s.subscribers ∧
      GcpConsumer.step (deliveries.subscription name) s.consumer b = some s'.consumer ∧
      ∀ d, b = .call d .deliver → deliveries.task d ∈ s.subscribers.topic := by
  have hconsume : s.consume name deliveries b = some s' → s'.subscribers = s.subscribers ∧
      GcpConsumer.step (deliveries.subscription name) s.consumer b = some s'.consumer := by
    intro hb
    obtain ⟨consumer, hconsumer, rfl⟩ := Option.map_eq_some_iff.1 hb
    exact ⟨rfl, hconsumer⟩
  unfold step at hs
  split at hs
  · rename_i hb
    cases hb
  · rename_i hb
    cases hb
    obtain ⟨htopic, hs⟩ := Option.ite_none_right_eq_some.1 hs
    obtain ⟨hsub, hconsumer⟩ := hconsume hs
    refine ⟨hsub, hconsumer, ?_⟩
    rintro d ⟨⟩
    exact htopic
  · rename_i hno hb
    cases hb
    obtain ⟨hsub, hconsumer⟩ := hconsume hs
    refine ⟨hsub, hconsumer, ?_⟩
    rintro d rfl
    exact absurd rfl (hno d)

/-- A step of a subscriber, or one of the consumer, who gets what the topic has accepted. -/
theorem step_cases (hs : step chain limitItems name deliveries s a = some s') :
    (s'.consumer = s.consumer ∧
      ∃ b, Gcp.step chain limitItems s.subscribers b = some s'.subscribers) ∨
    (s'.subscribers = s.subscribers ∧
      ∃ b, GcpConsumer.step (deliveries.subscription name) s.consumer b = some s'.consumer ∧
        ∀ d, b = .call d .deliver → deliveries.task d ∈ s.subscribers.topic) := by
  cases a with
  | subscriber b =>
    obtain ⟨hconsumer, hsub⟩ := subscriber_step hs
    exact Or.inl ⟨hconsumer, b, hsub⟩
  | consumer b =>
    obtain ⟨hsub, hconsumer, hdeliver⟩ := consumer_step hs
    exact Or.inr ⟨hsub, b, hconsumer, hdeliver⟩

/-! ### What the topic accepts -/

/-- What the topic accepts was sent, and what is sent was listed. -/
structure Listed (s : Gcp.State ι) : Prop where
  sent : s.sent ⊆ s.api.entries
  topic : s.topic ⊆ s.sent

/-- What a step of a subscriber does to the listing, the messages sent and the topic. -/
theorem subscriber_frame {s s' : Gcp.State ι} {b : Gcp.Action ι} (hpend : Gcp.Pending s)
    (hs : Gcp.step chain limitItems s b = some s') :
    s.api.entries ⊆ s'.api.entries ∧ s.sent ⊆ s'.sent ∧ s.topic ⊆ s'.topic ∧
      (∀ t ∈ s'.sent, t ∈ s.sent ∨ t ∈ s.api.entries) ∧
      ∀ t ∈ s'.topic, t ∈ s.topic ∨ t ∈ s.sent := by
  have hsame : s'.api = s.api → s'.sent = s.sent → s'.topic = s.topic →
      s.api.entries ⊆ s'.api.entries ∧ s.sent ⊆ s'.sent ∧ s.topic ⊆ s'.topic ∧
        (∀ t ∈ s'.sent, t ∈ s.sent ∨ t ∈ s.api.entries) ∧
        ∀ t ∈ s'.topic, t ∈ s.topic ∨ t ∈ s.sent := by
    intro hapi hsent htopic
    rw [hapi, hsent, htopic]
    exact ⟨List.Subset.refl _, List.Subset.refl _, List.Subset.refl _, fun _ => Or.inl,
      fun _ => Or.inl⟩
  cases Gcp.acts_of_step hs with
  | listTask task hnew =>
    exact ⟨List.subset_append_left _ _, List.Subset.refl _, List.Subset.refl _, fun _ => Or.inl,
      fun _ => Or.inl⟩
  | publishBatch i batch lastMsg hp hlast =>
    have hcont : Gcp.Continues s.api s.accepted batch := by
      simpa [hp, Gcp.Phase.Sound] using hpend.phase i
    refine ⟨List.Subset.refl _, List.subset_append_left _ _, List.Subset.refl _, fun t ht => ?_,
      fun _ => Or.inl⟩
    exact (List.mem_append.1 ht).imp_right fun ht => hcont.subset ht
  | accept task hsent =>
    refine ⟨List.Subset.refl _, List.Subset.refl _, List.subset_cons_self _ _, fun _ => Or.inl,
      fun t ht => ?_⟩
    rcases List.mem_cons.1 ht with rfl | ht
    · exact Or.inr hsent
    · exact Or.inl ht
  | peekLast | peekFails | fetch | fetchFails | batchFails | handle | handleFails | upsert
  | upsertFails | lateUpsert | crash | crashSaving => exact hsame rfl rfl rfl

theorem listed_step {s s' : Gcp.State ι} {b : Gcp.Action ι} (h : Listed s)
    (hpend : Gcp.Pending s) (hs : Gcp.step chain limitItems s b = some s') : Listed s' := by
  obtain ⟨hapi, hsent, -, hnew, haccepted⟩ := subscriber_frame hpend hs
  refine ⟨fun t ht => ?_, fun t ht => ?_⟩
  · exact hapi ((hnew t ht).elim (fun ht => h.sent ht) id)
  · exact hsent ((haccepted t ht).elim (fun ht => h.topic ht) id)

/-! ### What the application was handed -/

/-- The application was handed the delivery and acknowledged it. -/
structure Taken (log : List (Entry δ)) (d : δ) : Prop where
  handed : ∃ t, ⟨d, .handed, t⟩ ∈ log
  pubsubAcked : ∃ t, ⟨d, .pubsubAcked, t⟩ ∈ log

/-- Pub/Sub took an acknowledgement of the delivery, and will not deliver it again. -/
def Settled (log : List (Entry δ)) (d : δ) : Prop :=
  ∃ e ∈ log, e.delivery = d ∧ (e.event = .pubsubAcked ∨ e.event = .skipped)

structure Inv (name : String) (deliveries : Deliveries δ) (s : State ι δ) : Prop where
  safe : Cursor.Safe s.subscribers.toCursor
  pending : Gcp.Pending s.subscribers
  listed : Listed s.subscribers
  consumer : GcpConsumer.Inv (deliveries.subscription name) s.consumer
  delivered : ∀ d, s.consumer.phase d ≠ .absent → deliveries.task d ∈ s.subscribers.topic
  logged : ∀ e ∈ s.consumer.log, deliveries.task e.delivery ∈ s.subscribers.topic
  acked : ∀ d t, ⟨d, .pubsubAcked, t⟩ ∈ s.consumer.log → ∃ t', ⟨d, .handed, t'⟩ ∈ s.consumer.log

omit [DecidableEq ι] [DecidableEq δ] in
theorem inv_init (ackDeadlineSecs : ℤ) : Inv name deliveries (init ι δ ackDeadlineSecs) where
  safe := Feed.covers_none _ _
  pending := Gcp.pending_init
  listed := ⟨List.nil_subset _, List.nil_subset _⟩
  consumer := GcpConsumer.inv_init _ _
  delivered _ h := absurd rfl h
  logged _ h := by cases h
  acked _ _ h := by cases h

/-- The delivery comes first, and is not observed; the application acknowledges what it holds. -/
theorem move_first {decodes marked : Bool} {p p' : GcpConsumer.Phase} {c : GcpConsumer.Call}
    {e : Option GcpConsumer.Event} (h : GcpConsumer.move decodes marked p c = some (p', e)) :
    (p = .absent → c = .deliver ∧ e = none) ∧ (e = some .pubsubAcked → p = .handed) := by
  unfold GcpConsumer.move at h
  split at h <;> (try split_ifs at h) <;> cases h <;> simp

omit [DecidableEq ι] in
/-- A step of the consumer. -/
theorem inv_consumer {b : GcpConsumer.Action δ} (h : Inv name deliveries s)
    (hsub : s'.subscribers = s.subscribers)
    (hs : GcpConsumer.step (deliveries.subscription name) s.consumer b = some s'.consumer)
    (hdeliver : ∀ d, b = .call d .deliver → deliveries.task d ∈ s.subscribers.topic) :
    Inv name deliveries s' := by
  have hconsumer := GcpConsumer.inv_step h.consumer hs
  refine ⟨hsub ▸ h.safe, hsub ▸ h.pending, hsub ▸ h.listed, hconsumer, ?_, ?_, ?_⟩ <;>
    rcases GcpConsumer.step_cases hs with ⟨secs, hc⟩ | hc | ⟨i, c, p, e, rfl, hmove, hc⟩ <;>
    rw [hc]
  · exact hsub ▸ h.delivered
  · intro d hd
    rw [hsub]
    refine h.delivered d fun habsent => hd ?_
    show (s.consumer.phase d).crash = .absent
    rw [habsent]
    rfl
  · intro d hd
    rw [hsub]
    rcases GcpConsumer.of_advance_phase (P := fun q => q ≠ .absent) hd with ⟨rfl, -⟩ | ⟨-, hd⟩
    · by_cases habsent : s.consumer.phase d = .absent
      · obtain ⟨rfl, -⟩ := (move_first hmove).1 habsent
        exact hdeliver d rfl
      · exact h.delivered d habsent
    · exact h.delivered d hd
  · exact hsub ▸ h.logged
  · exact hsub ▸ h.logged
  · intro x hx
    rw [hsub]
    rcases GcpConsumer.mem_advance_log.1 hx with ⟨v, rfl, rfl⟩ | hx
    · refine h.delivered i fun habsent => ?_
      exact absurd ((move_first hmove).1 habsent).2 (by simp)
    · exact h.logged x hx
  · exact h.acked
  · exact h.acked
  · intro d t hacked
    rcases GcpConsumer.mem_advance_log.1 hacked with ⟨v, rfl, hv⟩ | hold
    · cases hv
      obtain ⟨t', ht'⟩ := h.consumer.handed i (Or.inl ((move_first hmove).2 rfl))
      exact ⟨t', GcpConsumer.log_subset_advance ht'⟩
    · obtain ⟨t', ht'⟩ := h.acked d t hold
      exact ⟨t', GcpConsumer.log_subset_advance ht'⟩

theorem inv_step (h : Inv name deliveries s)
    (hs : step chain limitItems name deliveries s a = some s') : Inv name deliveries s' := by
  rcases step_cases hs with ⟨hconsumer, b, hb⟩ | ⟨hsub, b, hb, hdeliver⟩
  · obtain ⟨hpend, hreach⟩ := Gcp.pending_step h.safe h.pending hb
    have htopic := (subscriber_frame h.pending hb).2.2.1
    refine ⟨Cursor.safe_of_reach h.safe hreach, hpend, listed_step h.listed h.pending hb,
      hconsumer ▸ h.consumer, ?_, ?_, hconsumer ▸ h.acked⟩
    · exact fun d hd => htopic (h.delivered d (hconsumer ▸ hd))
    · exact fun e he => htopic (h.logged e (hconsumer ▸ he))
  · exact inv_consumer h hsub hb hdeliver

theorem inv_of_reach {ackDeadlineSecs : ℤ}
    (h : Reach (ofFn (step chain limitItems name deliveries)) (init ι δ ackDeadlineSecs) s) :
    Inv name deliveries s :=
  h.invariant (inv_init ackDeadlineSecs) fun _ _ _ => inv_step

omit [DecidableEq δ] in
theorem msgId_subscription (d : δ) : (deliveries.subscription name).msgId d =
    some (String.ofList (deliveries.task d).id.hyphenated) := by
  simp [Subscription.msgId, GcpConsumer.PubsubMessage.msgId, Deliveries.subscription,
    Queue.toPubsubMessage, ofTask]

omit [DecidableEq ι] [DecidableEq δ] in
/-- Deliveries with one `Msg-Id` are of one task, as the API lists no two tasks under one id. -/
theorem task_eq_of_msgId (h : Inv name deliveries s) {d d' : δ}
    (hd : deliveries.task d ∈ s.subscribers.topic) (hd' : deliveries.task d' ∈ s.subscribers.topic)
    (hid : (deliveries.subscription name).msgId d' = (deliveries.subscription name).msgId d) :
    deliveries.task d' = deliveries.task d := by
  rw [msgId_subscription, msgId_subscription, Option.some_inj] at hid
  have hlisted : ∀ t ∈ s.subscribers.topic, t ∈ s.subscribers.api.entries := fun t ht =>
    h.listed.sent (h.listed.topic ht)
  refine Feed.eq_of_key_eq (hlisted _ hd') (hlisted _ hd) (hyphenated_injective ?_)
  simpa using congrArg String.toList hid

omit [DecidableEq ι] [DecidableEq δ] in
/-- A task that is gone from Pub/Sub was taken by the application. -/
theorem exists_taken (h : Inv name deliveries s) {d : δ} (hd : Settled s.consumer.log d) :
    ∃ d', deliveries.task d' = deliveries.task d ∧ Taken s.consumer.log d' := by
  obtain ⟨⟨i, event, t⟩, he, rfl, rfl | rfl⟩ := hd
  · exact ⟨i, rfl, h.acked i t he, t, he⟩
  · obtain ⟨later, earlier, hlog⟩ := List.append_of_mem he
    obtain ⟨j, hid, hack⟩ := (hlog ▸ h.consumer.justified).of_split rfl
    have hearlier : earlier ⊆ s.consumer.log := fun x hx => by
      rw [hlog]
      exact List.mem_append_right _ (List.mem_cons_of_mem _ hx)
    have hmono := hack.mono hearlier
    obtain ⟨t', ht'⟩ := hmono.handed
    exact ⟨j, task_eq_of_msgId h (h.logged _ he) (h.logged _ ht') hid, hmono.handed,
      hmono.pubsubAcked⟩

/-! ### No task is lost, and none is altered -/

structure Delivers (name : String) (deliveries : Deliveries δ) (s : State ι δ) : Prop where
  /-- A task at or before the cursor is still to be delivered, or the application has taken it. -/
  kept : ∀ t ∈ s.subscribers.api.upTo s.subscribers.lastMessageId,
    t ∈ s.subscribers.topic ∧ ((∀ d, deliveries.task d = t → ¬ Settled s.consumer.log d) ∨
      ∃ d, deliveries.task d = t ∧ Taken s.consumer.log d)
  /-- What the application is handed is a task as the API lists it. -/
  intact : ∀ d t, ⟨d, .handed, t⟩ ∈ s.consumer.log →
    deliveries.task d ∈ s.subscribers.api.entries ∧
      (deliveries.subscription name).decoded d =
        .ok { id := String.ofList (deliveries.task d).id.hyphenated
              decoded := deliveries.task d
              subscriptionName := name }

/-- **No task is lost between the Amplifier API and the application, and none is altered**, for any
number of subscribers, whatever fails or crashes on the way, and although the consumer drops
deliveries as duplicates. -/
theorem tasks_reach_application {ackDeadlineSecs : ℤ}
    (hfits : ∀ d, TaskItem.borsh.Fits (deliveries.task d))
    (hlength : ∀ d, (deliveries.context d).length + 1 < 2 ^ 32)
    (hheaders : ∀ d, ∀ header ∈ deliveries.context d,
      Borsh.string.Fits header.1 ∧ Borsh.string.Fits header.2)
    (h : Reach (ofFn (step chain limitItems name deliveries)) (init ι δ ackDeadlineSecs) s) :
    Delivers name deliveries s := by
  have hinv := inv_of_reach h
  refine ⟨fun t ht => ⟨hinv.safe.done t ht, ?_⟩, fun d t hd => ⟨?_, ?_⟩⟩
  · by_cases hsettled : ∃ d, deliveries.task d = t ∧ Settled s.consumer.log d
    · obtain ⟨d, rfl, hd⟩ := hsettled
      exact Or.inr (exists_taken hinv hd)
    · exact Or.inl fun d hd hgone => hsettled ⟨d, hd, hgone⟩
  · exact hinv.listed.sent (hinv.listed.topic (hinv.logged _ hd))
  · exact (Queue.readBack TaskItem.borsh (hfits d)).gcp (deliveries.context d) _ name
      ⟨hlength d, hheaders d, fits_deduplicationId _⟩

/-! ### A task that is published twice -/

/-- An empty gateway transaction, delivered as often as one likes. -/
def gatewayTransactions : Deliveries Bool where
  task _ := ⟨⟨1⟩, ⟨5, 0⟩, .gatewayTx ⟨[]⟩⟩
  context _ := []

theorem fits_gatewayTransaction (d : Bool) :
    TaskItem.borsh.Fits (gatewayTransactions.task d) := by
  have htime : DateTime.Valid ⟨5, 0⟩ := by decide
  exact ⟨trivial, htime, Borsh.fits_bytes.2 (by decide)⟩

/-- Two subscribers publish the task, one of them records it, and the consumer hands the first
delivery over and drops the second one. -/
def publishedTwice : List (Action Bool Bool) :=
  let task := gatewayTransactions.task false
  [.listTask task, .peekLast false true, .peekLast true true,
    .fetch false (.ok ⟨[task]⟩) [task], .fetch true (.ok ⟨[task]⟩) [task],
    .publishBatch false true, .publishBatch true true, .accept task, .accept task,
    .handle false true, .upsert false true].map .subscriber ++
  [.call false .deliver, .call false .decode, .call false (.isProcessed true),
    .call false (.forwardMessage true), .call false .receive, .call false (.ack true),
    .call false (.setEx .ok), .call true .deliver, .call true .decode,
    .call true (.isProcessed true), .call true (.ackDuplicate true)].map .consumer

/-- The theorem on that run. -/
theorem tasks_reach_application_once :
    ∃ s : State Bool Bool, s.subscribers.lastMessageId = some ⟨1⟩ ∧
      s.consumer.log.map Entry.event = [.skipped, .acked, .pubsubAcked, .handed] ∧
      Delivers "tasks" gatewayTransactions s := by
  obtain ⟨s, hs, hp⟩ := exists_reach_of_exec (step "solana" 10 "tasks" gatewayTransactions)
    (init Bool Bool 30) publishedTwice
    (fun s => s.subscribers.lastMessageId == some ⟨1⟩ &&
      s.consumer.log.map Entry.event == [.skipped, .acked, .pubsubAcked, .handed])
    (by decide +kernel)
  obtain ⟨hcursor, hlog⟩ := Bool.and_eq_true_iff.1 hp
  refine ⟨s, by simpa using hcursor, by simpa using hlog,
    tasks_reach_application fits_gatewayTransaction (fun _ => ?_) (fun _ _ h => (by cases h)) hs⟩
  show 0 + 1 < 2 ^ 32
  decide

end Pipeline
end Subscriber
end RelayerCore
