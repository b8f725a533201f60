import RelayerCore.NatsConsumer.Model

/-!
# What an ingester owes, and what it lets fall

A running ingester owes the events that its consumer will still deliver.  It lets an event fall
when it stops, when the server removes its consumer, and with the last delivery of the event; every
other act leaves what is owed as it was, or acknowledges it.
-/

namespace RelayerCore
namespace NatsConsumer

open Machine Ingester

/-! ### What a consumer still owes -/

section Consumer

variable {config : PushConfig} {c c' : Consumer config} {unanswered : Bool} {seq seq' : ℕ}

theorem owes_iff : c.owes unanswered seq = true ↔ c.startSeq ≤ seq ∧ seq ∉ c.acked ∧
    (c.delivered seq < config.maxDeliver ∨ unanswered = true ∧ seq ∈ c.pending) := by
  simp [Consumer.owes, and_assoc]

/-- A delivery is the last thing owed for an event if it is the last one and does not count. -/
theorem owes_deliver {stored : ℕ} (h : c.deliver stored seq = some c')
    (ho : c.owes unanswered seq' = true) : c'.owes unanswered seq' = false ↔
      seq' = seq ∧ unanswered = false ∧ config.maxDeliver ≤ c.delivered seq + 1 := by
  obtain ⟨-, rfl⟩ := Option.ite_none_right_eq_some.1 h |>.imp_right Option.some.inj
  rw [← Bool.not_eq_true, owes_iff]
  obtain ⟨hstart, hacked, hleft⟩ := owes_iff.1 ho
  by_cases heq : seq' = seq
  · subst heq
    cases unanswered <;> simp [hstart, hacked]
  · simp [heq, hstart, hacked, hleft]

/-- What is owed once the answer to a delivery is no longer awaited. -/
theorem owes_unpend (ho : c.owes unanswered seq' = true) :
    (c.unpend seq).owes unanswered seq' = false ↔
      seq' = seq ∧ unanswered = true ∧ config.maxDeliver ≤ c.delivered seq := by
  rw [← Bool.not_eq_true, owes_iff]
  obtain ⟨hstart, hacked, hleft⟩ := owes_iff.1 ho
  by_cases heq : seq' = seq
  · subst heq
    cases unanswered <;> simp_all [Consumer.unpend]
  · simp [Consumer.unpend, heq, hstart, hacked, hleft]

theorem owes_answered_ack (ho : c.owes unanswered seq' = true) :
    (c.answered seq .ack).owes unanswered seq' = false ↔ seq' = seq := by
  rw [← Bool.not_eq_true, owes_iff]
  obtain ⟨hstart, hacked, hleft⟩ := owes_iff.1 ho
  by_cases heq : seq' = seq
  · simp [heq, Consumer.answered]
  · simp [heq, Consumer.answered, Consumer.unpend, hstart, hacked, hleft]

end Consumer

/-! ### What an ingester lets fall -/

/-- How often the consumer of an ingester has delivered an event. -/
def IngesterState.delivered (g : IngesterState) (seq : ℕ) : ℕ :=
  (g.consumer.map fun c => c.delivered seq).getD 0

section Step

variable (fromSlice : List UInt8 → Option PublishEventsResult)
  (fromSliceError : List UInt8 → Option ErrorResponse) {chain : String}

/-- The act ends what an ingester owes for the event, other than by acknowledging it. -/
def IngesterState.letsFall (unanswered : Bool) (g : IngesterState) : Act → ℕ → Prop
  | .stop, _ => True
  | .expire, _ => True
  | .deliver seq, seq' =>
    seq' = seq ∧ unanswered = false ∧ consumerConfig.maxDeliver ≤ g.delivered seq + 1
  | .timeout seq, seq' =>
    seq' = seq ∧ unanswered = true ∧ consumerConfig.maxDeliver ≤ g.delivered seq
  | .answer seq exchange .arrived, seq' =>
    -- the API call failed, so that the answer is a `Nak`
    seq' = seq ∧ unanswered = true ∧ consumerConfig.maxDeliver ≤ g.delivered seq ∧
      resultsOf fromSlice fromSliceError exchange = none
  | _, _ => False

instance (unanswered : Bool) (g : IngesterState) (a : Act) (seq : ℕ) :
    Decidable (g.letsFall fromSlice fromSliceError unanswered a seq) := by
  unfold IngesterState.letsFall
  split <;> infer_instance

variable {fromSlice fromSliceError} {unanswered : Bool} {g g' : IngesterState} {events : List Event}

theorem sentKind_eq_ack (event : Event) (exchange : Exchange) (sending : Sending) :
    sentKind fromSlice fromSliceError chain event exchange sending = .ack ↔
      resultsOf fromSlice fromSliceError exchange ≠ none := by
  unfold sentKind
  rw [processQueueMsg_sent]
  cases resultsOf fromSlice fromSliceError exchange <;> simp

/-- A failed API call is answered with an immediate `Nak`. -/
theorem jetstreamAckKind_of_failed {event : Event} {exchange : Exchange} {sending : Sending}
    (h : resultsOf fromSlice fromSliceError exchange = none) :
    jetstreamAckKind (sentKind fromSlice fromSliceError chain event exchange sending) =
      .nak none := by
  unfold sentKind
  rw [processQueueMsg_sent, h]
  rfl

theorem owes_eq {c : Consumer consumerConfig} {seq : ℕ} (hlink : g.link ≠ .stopped)
    (hc : g.consumer = some c) : g.owes unanswered seq = c.owes unanswered seq := by
  simp [IngesterState.owes, hlink, hc]

/-- What an ingester owes, it owes through its consumer. -/
theorem exists_of_owes {seq : ℕ} (h : g.owes unanswered seq = true) :
    g.link ≠ .stopped ∧ ∃ c, g.consumer = some c ∧ c.owes unanswered seq = true := by
  unfold IngesterState.owes at h
  rw [Bool.and_eq_true, decide_eq_true_eq, Option.any_eq_true] at h
  exact h

theorem owes_of_same {seq : ℕ} (ho : g.owes unanswered seq = true) (hlink : g'.link ≠ .stopped)
    (hc : g'.consumer = g.consumer) : g'.owes unanswered seq = true := by
  obtain ⟨-, c, hgc, hoc⟩ := exists_of_owes ho
  rw [owes_eq hlink (hc.trans hgc)]
  exact hoc

/-! ### What an answer does -/

/-- An answer that reached the server, or did not. -/
theorem move_answer {seq : ℕ} {exchange : Exchange} {sending : Sending}
    (h : g.move fromSlice fromSliceError chain events (.answer seq exchange sending) = some g') :
    ∃ event, events[seq]? = some event ∧ g'.link = g.link ∧
      (sending ≠ .arrived ∧ g'.consumer = g.consumer ∨
        sending = .arrived ∧ g'.consumer = g.consumer.map (·.answered seq (jetstreamAckKind
          (sentKind fromSlice fromSliceError chain event exchange sending)))) := by
  simp only [IngesterState.move] at h
  obtain ⟨-, h⟩ := Option.ite_none_right_eq_some.1 h
  obtain ⟨event, hevent, rfl⟩ := Option.map_eq_some_iff.1 h
  refine ⟨event, hevent, rfl, ?_⟩
  by_cases hs : sending = .arrived
  · exact Or.inr ⟨hs, by simp [hs]⟩
  · exact Or.inl ⟨hs, by simp [hs]⟩

/-- An answer ends what is owed with the last delivery, or by acknowledging the event. -/
theorem owes_answer {seq seq' : ℕ} {exchange : Exchange} {sending : Sending}
    (h : g.move fromSlice fromSliceError chain events (.answer seq exchange sending) = some g')
    (ho : g.owes unanswered seq' = true) : g'.owes unanswered seq' = false ↔
      g.letsFall fromSlice fromSliceError unanswered (.answer seq exchange sending) seq' ∨
        sending = .arrived ∧
          seq' ∈ ackedBy fromSlice fromSliceError chain events (.answer seq exchange sending) := by
  obtain ⟨hlink, c, hc, hoc⟩ := exists_of_owes ho
  obtain ⟨event, hevent, hlink', ⟨hs, hc'⟩ | ⟨rfl, hc'⟩⟩ := move_answer h
  · have howes : g'.owes unanswered seq' = true := owes_of_same ho (by rwa [hlink']) hc'
    cases sending <;> simp_all [IngesterState.letsFall]
  have hkind : sentKind fromSlice fromSliceError chain event exchange .arrived = .ack ↔
      resultsOf fromSlice fromSliceError exchange ≠ none := sentKind_eq_ack event exchange .arrived
  rw [hc, Option.map_some] at hc'
  rw [owes_eq (hlink' ▸ hlink) hc']
  cases hres : resultsOf fromSlice fromSliceError exchange with
  | none =>
    rw [jetstreamAckKind_of_failed hres, Consumer.answered, owes_unpend hoc]
    simp [IngesterState.letsFall, IngesterState.delivered, hc, hres, ackedBy, hevent, hkind]
  | some r =>
    rw [hkind.2 (by simp [hres]), jetstreamAckKind, owes_answered_ack hoc]
    simp [IngesterState.letsFall, hres, ackedBy, hevent, hkind, Sending.isOk]

/-- The act is an answer that reaches the server. -/
def Act.arrives : Act → Prop
  | .answer _ _ sending => sending = .arrived
  | _ => False

/-- **What a move ends.** An ingester owes an event no more exactly if the move lets it fall, or
acknowledges it to the consumer. -/
theorem owes_move {a : Act} {seq : ℕ}
    (h : g.move fromSlice fromSliceError chain events a = some g')
    (ho : g.owes unanswered seq = true) : g'.owes unanswered seq = false ↔
      g.letsFall fromSlice fromSliceError unanswered a seq ∨
        a.arrives ∧ seq ∈ ackedBy fromSlice fromSliceError chain events a := by
  obtain ⟨hlink, c, hc, hoc⟩ := exists_of_owes ho
  cases a with
  | answer seq exchange sending => exact owes_answer h ho
  | disconnect =>
    obtain ⟨-, h⟩ := Option.ite_none_right_eq_some.1 h
    cases h
    simp [owes_of_same ho, IngesterState.letsFall, Act.arrives]
  | reconnect =>
    obtain ⟨-, h⟩ := Option.ite_none_right_eq_some.1 h
    cases h
    simp [owes_of_same ho, IngesterState.letsFall, Act.arrives]
  | stop =>
    obtain ⟨-, h⟩ := Option.ite_none_left_eq_some.1 h
    cases h
    simp [IngesterState.owes, IngesterState.letsFall]
  | expire =>
    obtain ⟨-, h⟩ := Option.ite_none_left_eq_some.1 h
    cases h
    simp [IngesterState.owes, IngesterState.letsFall]
  | decodeFailed seq =>
    obtain ⟨-, h⟩ := Option.ite_none_right_eq_some.1 h
    cases h
    simp [owes_of_same ho, hlink, IngesterState.letsFall, Act.arrives]
  | deliver seq' =>
    obtain ⟨-, h⟩ := Option.ite_none_right_eq_some.1 h
    rw [hc, Option.bind_some] at h
    obtain ⟨c', hc', hg'⟩ := Option.map_eq_some_iff.1 h
    have hconsumer : g'.consumer = some c' := by rw [← hg']
    rw [owes_eq (hg' ▸ hlink) hconsumer, owes_deliver hc' hoc]
    simp [IngesterState.letsFall, IngesterState.delivered, hc, Act.arrives]
  | timeout seq' =>
    simp only [IngesterState.move, hc, Option.bind_some] at h
    obtain ⟨c', hc', hg'⟩ := Option.map_eq_some_iff.1 h
    obtain ⟨-, hc'⟩ := Option.ite_none_right_eq_some.1 hc'
    cases hc'
    have hconsumer : g'.consumer = some (c.unpend seq') := by rw [← hg']
    rw [owes_eq (hg' ▸ hlink) hconsumer, owes_unpend hoc]
    simp [IngesterState.letsFall, IngesterState.delivered, hc, Act.arrives]

/-- An event that is let fall is not acknowledged by the same move. -/
theorem not_ackedBy_of_letsFall {a : Act} {seq : ℕ}
    (h : g.letsFall fromSlice fromSliceError unanswered a seq) :
    seq ∉ ackedBy fromSlice fromSliceError chain events a := by
  cases a with
  | answer seq' exchange sending =>
    cases sending with
    | arrived =>
      obtain ⟨-, -, -, hres⟩ := h
      unfold ackedBy
      cases hev : events[seq']? <;> simp [hev, sentKind_eq_ack, hres]
    | lost => cases h
    | failed => cases h
  | _ => exact List.not_mem_nil

end Step

end NatsConsumer
end RelayerCore
