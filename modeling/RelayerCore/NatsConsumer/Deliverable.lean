import RelayerCore.NatsConsumer.Owed
import RelayerCore.Ingester.Ingest

/-!
# When a stored event stays deliverable

Since the next ingester starts with the new events, an event that an ingester lets fall without
acknowledging it has to be owed by another running ingester; and an event stored while nobody
listens is lost at once.  The stored events are in the custody of the ingesters, and a run keeps
them there exactly if each of its steps hands over what it lets fall.
-/

namespace RelayerCore
namespace NatsConsumer

open Machine Ingester

/-! ### Consumers and the events stored -/

section Consumer

variable {config : PushConfig} {c c' : Consumer config} {unanswered : Bool} {seq : ℕ}

/-- A consumer of a stream knows nothing of the events after those stored. -/
structure Consumer.Bounded (c : Consumer config) (stored : ℕ) : Prop where
  start : c.startSeq ≤ stored
  delivered : ∀ seq, stored ≤ seq → c.delivered seq = 0
  acked : ∀ seq ∈ c.acked, seq < stored

theorem Consumer.Bounded.mono {stored stored' : ℕ} (h : c.Bounded stored) (hle : stored ≤ stored') :
    c.Bounded stored' := by
  constructor
  · have := h.start
    omega
  · intro seq hseq
    exact h.delivered seq (by omega)
  · intro seq hseq
    have := h.acked seq hseq
    omega

theorem bounded_create (stored : ℕ) : (Consumer.create consumerConfig stored).Bounded stored where
  start := le_rfl
  delivered _ _ := rfl
  acked _ h := by cases h

theorem bounded_deliver {stored : ℕ} (h : c.Bounded stored) (hs : c.deliver stored seq = some c') :
    c'.Bounded stored := by
  obtain ⟨⟨-, hlt, -⟩, rfl⟩ := Option.ite_none_right_eq_some.1 hs |>.imp_right Option.some.inj
  refine ⟨h.start, fun seq' hseq' => ?_, h.acked⟩
  have hne : seq' ≠ seq := by omega
  simpa [hne] using h.delivered seq' hseq'

theorem bounded_answered {stored : ℕ} (h : c.Bounded stored) (hseq : seq < stored)
    (kind : JetstreamAckKind) : (c.answered seq kind).Bounded stored := by
  cases kind with
  | ack =>
    refine ⟨h.start, h.delivered, fun seq' hseq' => ?_⟩
    rcases List.mem_cons.1 hseq' with rfl | hseq'
    · exact hseq
    · exact h.acked seq' hseq'
  | nak delay => exact ⟨h.start, h.delivered, h.acked⟩
  | progress => exact h

/-- The event stored next is owed by every consumer there is. -/
theorem owes_of_bounded {c : Consumer consumerConfig} {stored : ℕ} (h : c.Bounded stored) :
    c.owes unanswered stored = true := by
  refine owes_iff.2 ⟨h.start, fun hack => ?_, Or.inl ?_⟩
  · exact (h.acked stored hack).false
  · rw [h.delivered stored le_rfl]
    decide

end Consumer

/-! ### Handing over -/

section Step

variable (fromSlice : List UInt8 → Option PublishEventsResult)
  (fromSliceError : List UInt8 → Option ErrorResponse) {chain : String} {ν : Type}

/-- An ingester is running, and the server has its consumer. -/
def State.listening (s : State ν) (n : ν) : Bool :=
  (s.ingester n).any fun g => decide (g.link ≠ .stopped) && g.consumer.isSome

/-- Events are published while somebody listens, and an event that is let fall without being
acknowledged is owed by another ingester. -/
def HandsOver (unanswered : Bool) (s : State ν) : Action ν → Prop
  | .publish _ => ∃ n, s.listening n = true
  | .start _ => True
  | .act n a => ∀ g ∈ s.ingester n, ∀ seq < s.events.length,
      seq ∉ s.acked ∧ g.owes unanswered seq = true ∧
        g.letsFall fromSlice fromSliceError unanswered a seq →
      ∃ m, m ≠ n ∧ s.owedBy unanswered m seq = true

instance [DecidableEq ν] [Fintype ν] (unanswered : Bool) (s : State ν) (a : Action ν) :
    Decidable (HandsOver fromSlice fromSliceError unanswered s a) := by
  unfold HandsOver
  split <;> infer_instance

variable {fromSlice fromSliceError} {unanswered : Bool} {g g' : IngesterState} {events : List Event}

/-! ### Runs -/

/-- Nothing is acknowledged or known to a consumer before it is stored. -/
structure Inv (s : State ν) : Prop where
  acked : ∀ seq ∈ s.acked, seq < s.events.length
  bounded : ∀ n, ∀ g ∈ s.ingester n, ∀ c ∈ g.consumer, c.Bounded s.events.length

theorem inv_init : Inv (init ν) := by
  constructor
  · intro seq h
    cases h
  · intro n g h
    cases h

theorem lt_of_mem_ackedBy {a : Act} {seq : ℕ}
    (h : seq ∈ ackedBy fromSlice fromSliceError chain events a) : seq < events.length := by
  unfold ackedBy at h
  split at h
  · rename_i seq' exchange sending
    split at h
    · rename_i event hevent
      split_ifs at h
      · rw [List.mem_singleton.1 h]
        exact (List.getElem?_eq_some_iff.1 hevent).1
      · cases h
    · cases h
  · cases h

/-- The consumer of an ingester stays within the stored events. -/
theorem bounded_move {a : Act} (h : g.move fromSlice fromSliceError chain events a = some g')
    (hb : ∀ c ∈ g.consumer, c.Bounded events.length) :
    ∀ c ∈ g'.consumer, c.Bounded events.length := by
  intro c' hc'
  cases a with
  | answer seq exchange sending =>
    obtain ⟨event, hevent, -, ⟨-, hc⟩ | ⟨-, hc⟩⟩ := move_answer h
    · exact hb c' (hc ▸ hc')
    · rw [hc] at hc'
      obtain ⟨c, hgc, rfl⟩ := Option.map_eq_some_iff.1 hc'
      exact bounded_answered (hb c hgc) (List.getElem?_eq_some_iff.1 hevent).1 _
  | disconnect =>
    obtain ⟨-, h⟩ := Option.ite_none_right_eq_some.1 h
    cases h
    exact hb c' hc'
  | reconnect =>
    obtain ⟨-, h⟩ := Option.ite_none_right_eq_some.1 h
    cases h
    exact hb c' hc'
  | stop =>
    obtain ⟨-, h⟩ := Option.ite_none_left_eq_some.1 h
    cases h
    exact hb c' hc'
  | expire =>
    obtain ⟨-, h⟩ := Option.ite_none_left_eq_some.1 h
    cases h
    cases hc'
  | decodeFailed seq =>
    obtain ⟨-, h⟩ := Option.ite_none_right_eq_some.1 h
    cases h
    exact hb c' hc'
  | deliver seq =>
    obtain ⟨-, h⟩ := Option.ite_none_right_eq_some.1 h
    obtain ⟨c₁, hc₁, rfl⟩ := Option.map_eq_some_iff.1 h
    obtain ⟨c, hc, hdeliver⟩ := Option.bind_eq_some_iff.1 hc₁
    cases hc'
    exact bounded_deliver (hb c hc) hdeliver
  | timeout seq =>
    obtain ⟨c₁, hc₁, rfl⟩ := Option.map_eq_some_iff.1 h
    obtain ⟨c, hc, htimeout⟩ := Option.bind_eq_some_iff.1 hc₁
    obtain ⟨-, htimeout⟩ := Option.ite_none_right_eq_some.1 htimeout
    cases hc'
    cases htimeout
    exact ⟨(hb c hc).start, (hb c hc).delivered, (hb c hc).acked⟩

/-! ### One step and the custody of the events -/

variable {s s' : State ν}

theorem owedBy_eq {n : ν} {seq : ℕ} (hg : s.ingester n = some g) :
    s.owedBy unanswered n seq = g.owes unanswered seq := by
  simp [State.owedBy, hg]

/-- The event stored next is owed by whoever listens, and by nobody else. -/
theorem owedBy_next {n : ν} (h : Inv s) :
    s.owedBy unanswered n s.events.length = s.listening n := by
  unfold State.owedBy State.listening
  cases hg : s.ingester n with
  | none => rfl
  | some g =>
    cases hc : g.consumer with
    | none => simp [IngesterState.owes, hc]
    | some c => simp [IngesterState.owes, hc, owes_of_bounded (h.bounded n g hg c hc)]

/-- Publishing keeps every event in custody exactly if somebody listens. -/
theorem kept_publish {event : Event} (hinv : Inv s) (h : (s.custody unanswered).Kept) :
    ({ s with events := s.events ++ [event] }.custody unanswered).Kept ↔
      ∃ n, s.listening n = true := by
  refine Iff.trans (Custody.kept_iff_of_insert (a := s.events.length) h ?_ rfl rfl) ?_
  · ext seq
    simp [State.custody]
    omega
  · have hno : s.events.length ∉ s.acked := fun hack => (hinv.acked _ hack).false
    simp [State.custody, hno, owedBy_next hinv]

variable [DecidableEq ν]

/-- What a step can do. -/
theorem step_cases {a : Action ν} (h : step fromSlice fromSliceError chain s a = some s') :
    (∃ event, a = .publish event ∧ s' = { s with events := s.events ++ [event] }) ∨
    (∃ n, a = .start n ∧ s.ingester n = none ∧
      s' = { s with ingester := Function.update s.ingester n (some (.new s.events.length)) }) ∨
    ∃ n a' g g', a = .act n a' ∧ s.ingester n = some g ∧
      g.move fromSlice fromSliceError chain s.events a' = some g' ∧
      s' = { s with
        acked := ackedBy fromSlice fromSliceError chain s.events a' ++ s.acked
        ingester := Function.update s.ingester n (some g') } := by
  cases a with
  | publish event => exact Or.inl ⟨event, rfl, (Option.some.inj h).symm⟩
  | start n =>
    simp only [step] at h
    split at h
    · cases h
    · rename_i hn
      exact Or.inr (Or.inl ⟨n, rfl, hn, (Option.some.inj h).symm⟩)
  | act n a' =>
    obtain ⟨g, hg, h⟩ := Option.bind_eq_some_iff.1 h
    obtain ⟨g', hg', rfl⟩ := Option.map_eq_some_iff.1 h
    exact Or.inr (Or.inr ⟨n, a', g, g', rfl, hg, hg', rfl⟩)

theorem inv_step {a : Action ν} (h : Inv s)
    (hs : step fromSlice fromSliceError chain s a = some s') : Inv s' := by
  rcases step_cases hs with ⟨event, rfl, rfl⟩ | ⟨n, rfl, -, rfl⟩ | ⟨n, a, g, g', rfl, hg, hmove, rfl⟩
  · have hle : s.events.length ≤ (s.events ++ [event]).length := by simp
    constructor
    · intro seq hseq
      have := h.acked seq hseq
      show seq < (s.events ++ [event]).length
      omega
    · exact fun n g hg c hc => (h.bounded n g hg c hc).mono hle
  · refine ⟨h.acked, fun m g hg c hc => ?_⟩
    by_cases hm : m = n
    · subst hm
      simp only [Function.update_self] at hg
      cases hg
      cases hc
      exact bounded_create s.events.length
    · simp only [Function.update_of_ne hm] at hg
      exact h.bounded m g hg c hc
  · constructor
    · intro seq hseq
      rcases List.mem_append.1 hseq with hack | hack
      · exact lt_of_mem_ackedBy hack
      · exact h.acked seq hack
    · intro m g₁ hg₁
      by_cases hm : m = n
      · subst hm
        simp only [Function.update_self] at hg₁
        cases hg₁
        exact bounded_move hmove (h.bounded m g hg)
      · simp only [Function.update_of_ne hm] at hg₁
        exact h.bounded m g₁ hg₁

/-- A new ingester takes nothing away. -/
theorem kept_start {n : ν} (hn : s.ingester n = none) (h : (s.custody unanswered).Kept) :
    ({ s with ingester := Function.update s.ingester n (some (.new s.events.length)) }.custody
      unanswered).Kept := by
  refine h.mono subset_rfl subset_rfl fun m seq hseq => ?_
  have hm : m ≠ n := by
    rintro rfl
    simp [State.custody, State.owedBy, hn] at hseq
  simpa [State.custody, State.owedBy, hm] using hseq

/-- An act keeps every event in custody exactly if another ingester owes what it lets fall. -/
theorem kept_act {n : ν} {a : Act} (hg : s.ingester n = some g)
    (hmove : g.move fromSlice fromSliceError chain s.events a = some g')
    (h : (s.custody unanswered).Kept) :
    ({ s with
        acked := ackedBy fromSlice fromSliceError chain s.events a ++ s.acked
        ingester := Function.update s.ingester n (some g') }.custody unanswered).Kept ↔
      HandsOver fromSlice fromSliceError unanswered s (.act n a) := by
  refine Iff.trans (Custody.kept_iff_of_holder (n := n) h rfl ?_ ?_) ?_
  · exact fun seq hseq => List.mem_append_right _ hseq
  · intro m hm
    ext seq
    simp [State.custody, State.owedBy, hm]
  constructor
  · intro hall g₁ hg₁ seq hseq hlet
    obtain ⟨hack, ho, hfall⟩ := hlet
    obtain rfl : g = g₁ := Option.some.inj (hg.symm.trans hg₁)
    have hold : s.owedBy unanswered n seq = true := by rw [owedBy_eq hg]; exact ho
    have hnew : g'.owes unanswered seq = false := (owes_move hmove ho).2 (Or.inl hfall)
    rcases hall seq hseq hold (by simp [State.custody, State.owedBy, hnew]) with hs | hother
    · -- what is let fall was not acknowledged before, and is not by this act
      rcases List.mem_append.1 hs with hs | hs
      · exact absurd hs (not_ackedBy_of_letsFall hfall)
      · exact absurd hs hack
    · exact hother
  · intro hall seq hseq hold hnew
    have ho : g.owes unanswered seq = true := by rw [← owedBy_eq hg]; exact hold
    have hno : g'.owes unanswered seq = false := by
      simpa [State.custody, State.owedBy] using hnew
    by_cases hack : seq ∈ s.acked
    · exact Or.inl (List.mem_append_right _ hack)
    rcases (owes_move hmove ho).1 hno with hfall | ⟨-, hacks⟩
    · exact Or.inr (hall g hg seq hseq ⟨hack, ho, hfall⟩)
    · exact Or.inl (List.mem_append_left _ hacks)

/-- A step keeps every event in custody exactly if it hands over what it lets fall. -/
theorem kept_step {a : Action ν} (hinv : Inv s) (h : (s.custody unanswered).Kept)
    (hs : step fromSlice fromSliceError chain s a = some s') :
    (s'.custody unanswered).Kept ↔ HandsOver fromSlice fromSliceError unanswered s a := by
  rcases step_cases hs with ⟨event, rfl, rfl⟩ | ⟨n, rfl, hn, rfl⟩ | ⟨n, a, g, g', rfl, hg, hmove, rfl⟩
  · exact kept_publish hinv h
  · exact iff_of_true (kept_start hn h) trivial
  · exact kept_act hg hmove h

/-- **Events stay deliverable as long as they are handed over.** A run keeps every stored event
acknowledged or deliverable exactly if events are published only while an ingester listens, and
every event that an ingester lets fall without acknowledging it is owed by another one. -/
theorem events_deliverable_iff_handed_over {tr : List (State ν × Action ν)}
    (h : Run (ofFn (step fromSlice fromSliceError chain)) (init ν) tr s) :
    (∀ t ∈ visited tr s, Deliverable unanswered t) ↔
      ∀ p ∈ tr, HandsOver fromSlice fromSliceError unanswered p.1 p.2 := by
  have hgood : ∀ t, Reach (when (ofFn (step fromSlice fromSliceError chain))
      (HandsOver fromSlice fromSliceError unanswered)) (init ν) t →
      Inv t ∧ (t.custody unanswered).Kept := by
    intro t ht
    refine ht.invariant (p := fun t => Inv t ∧ (t.custody unanswered).Kept)
      ⟨inv_init, fun seq hseq => absurd hseq (Nat.not_lt_zero _)⟩ ?_
    rintro s a s' ⟨hinv, hkept⟩ ⟨hok, hs⟩
    exact ⟨inv_step hinv hs, (kept_step hinv hkept hs).2 hok⟩
  simp only [deliverable_iff_kept]
  refine h.forall_visited_iff (hgood _ .refl).2 (fun t ht => (hgood t ht).2) ?_
  intro s a s' hr hno hs hkept
  obtain ⟨hinv, hk⟩ := hgood s hr
  exact hno ((kept_step hinv hk hs).1 hkept)

end Step

/-! ### An event nobody listened for, and an outage of the API -/

/-- Deliveries of the first event whose API calls fail. -/
def outage (deliveries : ℕ) : List Act :=
  (List.replicate deliveries
    [.deliver 0, .answer 0 (.notSent .reqwestWithMiddleware) .arrived]).flatten

/-- An event stored before the first ingester starts is lost, and so is one whose API call has
failed ten times. -/
theorem stored_event_never_delivered :
    (∃ s, Reach (ofFn (step decodeResults decodeError "solana")) (init Unit) s ∧
      s.listening () = true ∧ ¬ Deliverable false s ∧ ¬ Deliverable true s) ∧
    ∃ s, Reach (ofFn (step decodeResults decodeError "solana")) (init Unit) s ∧
      ((s.ingester ()).map fun g => g.delivered 0) = some 10 ∧
        ¬ Deliverable false s ∧ ¬ Deliverable true s := by
  constructor
  · obtain ⟨s, hs, hp⟩ := exists_reach_of_exec (step decodeResults decodeError "solana")
      (init Unit) [.publish rotation, .start ()]
      (fun s => s.listening () && decide (¬ Deliverable false s ∧ ¬ Deliverable true s))
      (by decide +kernel)
    exact ⟨s, hs, by simpa using hp⟩
  · obtain ⟨s, hs, hp⟩ := exists_reach_of_exec (step decodeResults decodeError "solana")
      (init Unit) ([.start (), .publish rotation] ++ (outage 10).map (.act ()))
      (fun s => decide (((s.ingester ()).map fun g => g.delivered 0) = some 10) &&
        decide (¬ Deliverable false s ∧ ¬ Deliverable true s)) (by decide +kernel)
    rw [Bool.and_eq_true, decide_eq_true_eq, decide_eq_true_eq] at hp
    exact ⟨s, hs, hp⟩

/-- Two ingesters; the one that the event was delivered to stops, and the other one ingests it. -/
def takeover : List (Action Bool) :=
  [.start false, .start true, .publish rotation, .act false (.deliver 0), .act false .stop,
    .act true (.deliver 0), .act true (.answer 0 (.answered ⟨200, some acceptBody⟩) .arrived),
    .act true .stop]

/-- The theorem on a run in which one ingester takes over from another. -/
theorem events_deliverable_takeover :
    ∃ (tr : List (State Bool × Action Bool)) (s : State Bool),
      tr.map Prod.snd = takeover.reverse ∧ ∀ t ∈ visited tr s, Deliverable false t := by
  obtain ⟨tr, s, hr, hok, htr⟩ := exists_run_of_exec
    (step decodeResults decodeError "solana") (HandsOver decodeResults decodeError false)
    (init Bool) takeover (by decide +kernel)
  exact ⟨tr, s, htr, (events_deliverable_iff_handed_over hr).2 hok⟩

end NatsConsumer
end RelayerCore
