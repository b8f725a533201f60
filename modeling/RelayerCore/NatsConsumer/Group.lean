import RelayerCore.NatsConsumer.Model

/-!
# Ingesters of one deliver group

A queue group balances among the subscribers of one subject.  Every connection makes an inbox of
its own and has its consumer deliver there, so that the ingesters of a group subscribe to different
subjects, and each gets every event.

Events are numbered as in `NatsConsumer.Model`; what is left out here are `Nak`s, overdue answers
and ingesters that stop.
-/

namespace RelayerCore
namespace NatsConsumer
namespace Group

open Machine

/-! ### Connecting -/

structure Builder where
  inbox : String

/-- `Builder::connect_to_nats`: `newInbox` is what `client.new_inbox()` returns. -/
def connectToNats (newInbox : String) : Builder := { inbox := newInbox }

structure ConfiguredStream where
  inbox : String

def Builder.stream (self : Builder) : ConfiguredStream := { inbox := self.inbox }

/-- A consumer of the stream: where it delivers, and what it has delivered. -/
structure GroupConsumer where
  name : String
  deliverSubject : String
  deliverGroup : String
  view : Consumer consumerConfig

/-- `ConfiguredStream::consumer` on a stream of `stored` events. -/
def ConfiguredStream.consumer (self : ConfiguredStream) (uuid deliverGroup : String) (stored : ℕ) :
    GroupConsumer where
  name := uuid
  deliverSubject := self.inbox
  deliverGroup := deliverGroup
  view := .create consumerConfig stored

def connectConsumer (newInbox uuid deliverGroup : String) (stored : ℕ) : GroupConsumer :=
  (connectToNats newInbox).stream.consumer uuid deliverGroup stored

/-! ### The group -/

/-- An ingester subscribed to the subject of its consumer, and the events it received. -/
structure Instance where
  consumer : GroupConsumer
  received : List ℕ

/-- A message of the sender's consumer may go to this instance. -/
def Instance.Listens (self sender : Instance) : Prop :=
  self.consumer.deliverSubject = sender.consumer.deliverSubject ∧
    self.consumer.deliverGroup = sender.consumer.deliverGroup

instance (x y : Instance) : Decidable (x.Listens y) := by
  unfold Instance.Listens
  infer_instance

def Instance.setView (self : Instance) (view : Consumer consumerConfig) : Instance :=
  { self with consumer := { self.consumer with view := view } }

def Instance.receive (self : Instance) (seq : ℕ) : Instance :=
  { self with received := seq :: self.received }

structure State where
  stored : ℕ
  instances : List Instance

def init : State := { stored := 0, instances := [] }

/-- The consumer of instance `c` delivers an event to instance `i`, or gets its acknowledgement. -/
inductive Action
  | connect (newInbox uuid : String)
  | publish
  | deliver (c i seq : ℕ)
  | ack (c seq : ℕ)
  deriving DecidableEq

/-- One step; inbox and consumer names are fresh. -/
def step (deliverGroup : String) (s : State) : Action → Option State
  | .connect newInbox uuid =>
    if ∀ x ∈ s.instances, x.consumer.deliverSubject ≠ newInbox ∧ x.consumer.name ≠ uuid then
      some { s with
        instances := s.instances ++ [⟨connectConsumer newInbox uuid deliverGroup s.stored, []⟩] }
    else none
  | .publish => some { s with stored := s.stored + 1 }
  | .deliver c i seq =>
    match s.instances[c]?, s.instances[i]? with
    | some sender, some receiver =>
      if receiver.Listens sender then
        (sender.consumer.view.deliver s.stored seq).map fun view =>
          { s with
            instances := (s.instances.modify c (·.setView view)).modify i (·.receive seq) }
      else none
    | _, _ => none
  | .ack c seq =>
    match s.instances[c]? with
    | some x =>
      if seq ∈ x.consumer.view.pending then
        some { s with
          instances := s.instances.modify c (·.setView (x.consumer.view.answered seq .ack)) }
      else none
    | none => none

/-- The step connects nobody. -/
def NoConnect (_ : State) : Action → Prop
  | .connect _ _ => False
  | _ => True

instance (s : State) (a : Action) : Decidable (NoConnect s a) := by
  unfold NoConnect
  split <;> infer_instance

/-- How often the event was delivered, to all instances together. -/
def State.deliveries (s : State) (seq : ℕ) : ℕ :=
  (s.instances.map fun x => x.received.count seq).sum

/-- An event the consumer still has to deliver. -/
def Instance.Missing (stored : ℕ) (x : Instance) (seq : ℕ) : Prop :=
  x.consumer.view.startSeq ≤ seq ∧ seq < stored ∧ seq ∉ x.consumer.view.pending ∧
    seq ∉ x.consumer.view.acked

instance (stored : ℕ) (x : Instance) (seq : ℕ) : Decidable (x.Missing stored seq) := by
  unfold Instance.Missing
  infer_instance

/-- The consumers have delivered everything. -/
def Settled (s : State) : Prop := ∀ x ∈ s.instances, ∀ seq, ¬ x.Missing s.stored seq

/-! ### One instance -/

/-- An instance received each event once if its consumer has delivered it, and not otherwise. -/
structure Instance.Ok (stored : ℕ) (x : Instance) : Prop where
  start : x.consumer.view.startSeq ≤ stored
  received : ∀ seq, x.received.count seq =
    if seq ∈ x.consumer.view.pending ∨ seq ∈ x.consumer.view.acked then 1 else 0
  fresh : ∀ seq, seq ∉ x.consumer.view.pending → seq ∉ x.consumer.view.acked →
    x.consumer.view.delivered seq = 0
  bounded : x.consumer.view.pending.length ≤ consumerConfig.maxAckPending

variable {x : Instance} {stored seq : ℕ} {view : Consumer consumerConfig}

theorem ok_connect (newInbox uuid deliverGroup : String) (stored : ℕ) :
    Instance.Ok stored ⟨connectConsumer newInbox uuid deliverGroup stored, []⟩ where
  start := Nat.le_refl stored
  received seq := by simp [connectConsumer, ConfiguredStream.consumer, Consumer.create]
  fresh seq _ _ := rfl
  bounded := Nat.zero_le _

theorem Instance.Ok.publish (h : x.Ok stored) : x.Ok (stored + 1) :=
  ⟨h.start.trans (Nat.le_succ stored), h.received, h.fresh, h.bounded⟩

theorem Instance.Ok.deliver (h : x.Ok stored)
    (hd : x.consumer.view.deliver stored seq = some view) :
    ((x.setView view).receive seq).Ok stored := by
  obtain ⟨⟨-, -, -, hpending, hacked, hlt⟩, hview⟩ := Option.ite_none_right_eq_some.1 hd
  cases hview
  refine ⟨h.start, fun e => ?_, fun e hp ha => ?_, hlt⟩
  · show (seq :: x.received).count e = _
    rw [List.count_cons, h.received]
    by_cases he : e = seq
    · subst he
      simp [Instance.setView, Instance.receive, hpending, hacked]
    · have he' : ¬ seq = e := fun h => he h.symm
      simp [Instance.setView, Instance.receive, he, he']
  · obtain ⟨hne, hp'⟩ := not_or.mp (mt List.mem_cons.mpr hp)
    show Function.update x.consumer.view.delivered seq _ e = 0
    rw [Function.update_of_ne hne]
    exact h.fresh e hp' ha

theorem Instance.Ok.ack (h : x.Ok stored) (hseq : seq ∈ x.consumer.view.pending) :
    (x.setView (x.consumer.view.answered seq .ack)).Ok stored := by
  refine ⟨h.start, fun e => ?_, fun e hp ha => ?_, ?_⟩
  · refine (h.received e).trans ?_
    by_cases he : e = seq
    · subst he
      simp [Instance.setView, Consumer.answered, hseq]
    · simp [Instance.setView, Consumer.answered, Consumer.unpend, he]
  · have ha' : e ≠ seq ∧ e ∉ x.consumer.view.acked := not_or.mp (mt List.mem_cons.mpr ha)
    refine h.fresh e (fun hp' => hp ?_) ha'.2
    exact List.mem_filter.mpr ⟨hp', by simp [ha'.1]⟩
  · exact (List.length_filter_le _ _).trans h.bounded

/-! ### The whole group -/

structure Inv (s : State) : Prop where
  /-- No two instances listen to one subject. -/
  distinct : (s.instances.map (·.consumer.deliverSubject)).Nodup
  ok : ∀ x ∈ s.instances, x.Ok s.stored

theorem inv_init : Inv init where
  distinct := List.nodup_nil
  ok x hx := by cases hx

theorem forall_mem_modify {α : Type*} {l : List α} {i : ℕ} {f : α → α} {P : α → Prop}
    (h : ∀ x ∈ l, P x) (hf : ∀ x, l[i]? = some x → P (f x)) : ∀ x ∈ l.modify i f, P x := by
  intro x hx
  obtain ⟨j, hj⟩ := List.mem_iff_getElem?.mp hx
  rw [List.getElem?_modify] at hj
  obtain ⟨y, hy, rfl⟩ := Option.map_eq_some_iff.mp hj
  by_cases hij : i = j
  · subst hij
    rw [if_pos rfl]
    exact hf y hy
  · rw [if_neg hij]
    exact h y (List.mem_of_getElem? hy)

/-- The subjects stay where they are when an instance changes otherwise. -/
theorem subjects_modify (l : List Instance) (i : ℕ) {f : Instance → Instance}
    (hf : ∀ x, (f x).consumer.deliverSubject = x.consumer.deliverSubject) :
    (l.modify i f).map (·.consumer.deliverSubject) = l.map (·.consumer.deliverSubject) := by
  apply List.ext_getElem?
  intro j
  rw [List.getElem?_map, List.getElem?_map, List.getElem?_modify]
  cases l[j]? with
  | none => rfl
  | some x =>
    by_cases hij : i = j
    · simp [hij, hf]
    · simp [hij]

variable {deliverGroup : String} {s s' s₀ : State} {a : Action}

/-- A step connects an instance, stores an event, or is a delivery or an acknowledgement between an
instance and its own consumer. -/
theorem step_cases (h : Inv s) (hs : step deliverGroup s a = some s') :
    (∃ newInbox uuid, a = .connect newInbox uuid ∧
      (∀ x ∈ s.instances, x.consumer.deliverSubject ≠ newInbox) ∧ s' = { s with
        instances := s.instances ++ [⟨connectConsumer newInbox uuid deliverGroup s.stored, []⟩] }) ∨
    (a = .publish ∧ s' = { s with stored := s.stored + 1 }) ∨
    (∃ c x seq view, s.instances[c]? = some x ∧
      x.consumer.view.deliver s.stored seq = some view ∧
      s' = { s with instances := s.instances.modify c fun x => (x.setView view).receive seq }) ∨
    (∃ c x seq, s.instances[c]? = some x ∧ seq ∈ x.consumer.view.pending ∧
      s' = { s with
        instances := s.instances.modify c (·.setView (x.consumer.view.answered seq .ack)) }) := by
  cases a with
  | connect newInbox uuid =>
    obtain ⟨hfresh, hs⟩ := Option.ite_none_right_eq_some.1 hs
    cases hs
    exact Or.inl ⟨newInbox, uuid, rfl, fun x hx => (hfresh x hx).1, rfl⟩
  | publish =>
    cases hs
    exact Or.inr (Or.inl ⟨rfl, rfl⟩)
  | deliver c i seq =>
    simp only [step] at hs
    split at hs
    · rename_i sender receiver hc hi
      obtain ⟨hlistens, hs⟩ := Option.ite_none_right_eq_some.1 hs
      obtain ⟨view, hview, rfl⟩ := Option.map_eq_some_iff.mp hs
      -- the only subscriber of the subject is the instance that made it
      have hic : i = c := by
        refine (List.getElem?_inj ?_ h.distinct).mp ?_
        · rw [List.length_map]
          exact (List.getElem?_eq_some_iff.mp hi).1
        · rw [List.getElem?_map, List.getElem?_map, hi, hc]
          exact congrArg some hlistens.1
      subst hic
      rw [List.modify_modify_eq]
      exact Or.inr (Or.inr (Or.inl ⟨i, sender, seq, view, hc, hview, rfl⟩))
    · cases hs
  | ack c seq =>
    simp only [step] at hs
    split at hs
    · rename_i x hc
      obtain ⟨hseq, hs⟩ := Option.ite_none_right_eq_some.1 hs
      cases hs
      exact Or.inr (Or.inr (Or.inr ⟨c, x, seq, hc, hseq, rfl⟩))
    · cases hs

theorem inv_step (h : Inv s) (hs : step deliverGroup s a = some s') : Inv s' := by
  rcases step_cases h hs with ⟨newInbox, uuid, -, hfresh, rfl⟩ | ⟨-, rfl⟩ |
    ⟨c, x, seq, view, hc, hview, rfl⟩ | ⟨c, x, seq, hc, hseq, rfl⟩
  · refine ⟨?_, fun x hx => ?_⟩
    · rw [List.map_append]
      refine List.nodup_append.mpr ⟨h.distinct, List.nodup_singleton _, fun subject hx y hy => ?_⟩
      obtain ⟨x, hmem, rfl⟩ := List.mem_map.mp hx
      rw [List.mem_singleton.mp hy]
      exact hfresh x hmem
    · rcases List.mem_append.mp hx with hx | hx
      · exact h.ok x hx
      · rw [List.mem_singleton.mp hx]
        exact ok_connect newInbox uuid deliverGroup s.stored
  · exact ⟨h.distinct, fun x hx => (h.ok x hx).publish⟩
  · refine ⟨?_, forall_mem_modify h.ok fun y hy => ?_⟩
    · show (List.map _ (List.modify _ _ _)).Nodup
      rw [subjects_modify _ _ (by intro y; rfl)]
      exact h.distinct
    cases hc.symm.trans hy
    exact (h.ok x (List.mem_of_getElem? hc)).deliver hview
  · refine ⟨?_, forall_mem_modify h.ok fun y hy => ?_⟩
    · show (List.map _ (List.modify _ _ _)).Nodup
      rw [subjects_modify _ _ (by intro y; rfl)]
      exact h.distinct
    cases hc.symm.trans hy
    exact (h.ok x (List.mem_of_getElem? hc)).ack hseq

theorem inv_of_reach (h : Reach (ofFn (step deliverGroup)) init s) : Inv s :=
  h.invariant inv_init fun _ _ _ => inv_step

/-! ### What happens while nobody connects -/

/-- The instances are those of `s₀`, and their consumers start before what is stored from then
on. -/
structure Joined (s₀ s : State) : Prop where
  length : s.instances.length = s₀.instances.length
  start : ∀ x ∈ s.instances, x.consumer.view.startSeq ≤ s₀.stored
  stored : s₀.stored ≤ s.stored

theorem joined_step (h : Inv s) (hj : Joined s₀ s)
    (hs : when (ofFn (step deliverGroup)) NoConnect s a s') : Joined s₀ s' := by
  obtain ⟨hok, hs⟩ := hs
  rcases step_cases h hs with ⟨newInbox, uuid, rfl, -, -⟩ | ⟨-, rfl⟩ |
    ⟨c, x, seq, view, hc, hview, rfl⟩ | ⟨c, x, seq, hc, -, rfl⟩
  · exact absurd hok id
  · exact ⟨hj.length, hj.start, hj.stored.trans (Nat.le_succ _)⟩
  · refine ⟨(List.length_modify _ _ _).trans hj.length, forall_mem_modify hj.start ?_, hj.stored⟩
    intro y hy
    cases hc.symm.trans hy
    obtain ⟨-, hview⟩ := Option.ite_none_right_eq_some.1 hview
    cases hview
    exact hj.start x (List.mem_of_getElem? hc)
  · refine ⟨(List.length_modify _ _ _).trans hj.length, forall_mem_modify hj.start ?_, hj.stored⟩
    intro y hy
    cases hc.symm.trans hy
    exact hj.start x (List.mem_of_getElem? hc)

theorem joined_of_reach (h₀ : Inv s₀)
    (h : Reach (when (ofFn (step deliverGroup)) NoConnect) s₀ s) : Inv s ∧ Joined s₀ s := by
  have h0 : Inv s₀ ∧ Joined s₀ s₀ :=
    ⟨h₀, rfl, fun x hx => (h₀.ok x hx).start, Nat.le_refl _⟩
  exact h.invariant (p := fun s => Inv s ∧ Joined s₀ s) h0 fun s a s' hp hs =>
    ⟨inv_step hp.1 hs.2, joined_step hp.1 hp.2 hs⟩

/-! ### Everything gets delivered, to everybody -/

theorem exists_missing_of_not_settled (h : ¬ Settled s) :
    ∃ (c : ℕ) (x : Instance) (seq : ℕ), s.instances[c]? = some x ∧ x.Missing s.stored seq := by
  unfold Settled at h
  push Not at h
  obtain ⟨x, hx, seq, hmiss⟩ := h
  obtain ⟨c, hc⟩ := List.mem_iff_getElem?.mp hx
  exact ⟨c, x, seq, hc, hmiss⟩

/-- The number of deliveries still to be made. -/
def Instance.missing (x : Instance) (stored : ℕ) : ℕ :=
  ((Finset.range stored).filter (x.Missing stored)).card

def State.missing (s : State) : ℕ := (s.instances.map (·.missing s.stored)).sum

theorem missing_modify {c : ℕ} (f : Instance → Instance) (hc : s.instances[c]? = some x) :
    State.missing { s with instances := s.instances.modify c f } + x.missing s.stored =
      s.missing + (f x).missing s.stored :=
  sum_map_modify f (·.missing s.stored) hc

/-- A consumer with room for another unanswered delivery makes one that is missing. -/
theorem exists_deliver (deliverGroup : String) {c : ℕ} (hc : s.instances[c]? = some x)
    (h : x.Ok s.stored) (hmiss : x.Missing s.stored seq)
    (hroom : x.consumer.view.pending.length < consumerConfig.maxAckPending) :
    ∃ s', step deliverGroup s (.deliver c c seq) = some s' ∧ s'.stored = s.stored ∧
      s'.missing < s.missing := by
  obtain ⟨hstart, hstored, hpending, hacked⟩ := hmiss
  have hfirst : x.consumer.view.delivered seq < consumerConfig.maxDeliver := by
    rw [h.fresh seq hpending hacked]
    decide
  obtain ⟨view, hview⟩ : ∃ view, x.consumer.view.deliver s.stored seq = some view :=
    ⟨_, if_pos ⟨hstart, hstored, hfirst, hpending, hacked, hroom⟩⟩
  have hlistens : x.Listens x := ⟨rfl, rfl⟩
  refine ⟨{ s with instances := s.instances.modify c fun x => (x.setView view).receive seq },
    ?_, rfl, ?_⟩
  · simp only [step, hc, if_pos hlistens, hview, Option.map_some, List.modify_modify_eq]
    rfl
  have hless : ((x.setView view).receive seq).missing s.stored < x.missing s.stored := by
    obtain ⟨-, hview⟩ := Option.ite_none_right_eq_some.1 hview
    cases hview
    apply Finset.card_lt_card
    refine Finset.ssubset_iff_subset_ne.mpr ⟨fun e he => ?_, fun heq => ?_⟩
    · obtain ⟨hr, hs, hlt, hp, ha⟩ := Finset.mem_filter.mp he
      exact Finset.mem_filter.mpr ⟨hr, hs, hlt, (not_or.mp (mt List.mem_cons.mpr hp)).2, ha⟩
    · have hmem : seq ∈ (Finset.range s.stored).filter (x.Missing s.stored) :=
        Finset.mem_filter.mpr ⟨Finset.mem_range.mpr hstored, hstart, hstored, hpending, hacked⟩
      rw [← heq] at hmem
      exact (Finset.mem_filter.mp hmem).2.2.2.1 List.mem_cons_self
  have hsum := missing_modify (fun x => (x.setView view).receive seq) hc
  omega

/-- The acknowledgement of a delivery makes room, and nothing more is missing. -/
theorem exists_ack (deliverGroup : String) {c seq' : ℕ} (hc : s.instances[c]? = some x)
    (hseq' : seq' ∈ x.consumer.view.pending) :
    ∃ s' x', step deliverGroup s (.ack c seq') = some s' ∧ s'.missing ≤ s.missing ∧
      s'.stored = s.stored ∧ s'.instances[c]? = some x' ∧
      x'.consumer.view.pending.length < x.consumer.view.pending.length ∧
      ∀ e, x.Missing s.stored e → x'.Missing s.stored e := by
  let acked := x.consumer.view.answered seq' .ack
  refine ⟨{ s with instances := s.instances.modify c (·.setView acked) },
    x.setView acked, ?_, ?_, rfl, ?_, ?_, ?_⟩
  · simp only [step, hc, if_pos hseq']
    rfl
  · have hle : (x.setView acked).missing s.stored ≤ x.missing s.stored := by
      apply Finset.card_le_card
      intro e he
      obtain ⟨hr, hs, hlt, hp, ha⟩ := Finset.mem_filter.mp he
      obtain ⟨hne, ha'⟩ := not_or.mp (mt List.mem_cons.mpr ha)
      refine Finset.mem_filter.mpr ⟨hr, hs, hlt, fun hpend => hp ?_, ha'⟩
      exact List.mem_filter.mpr ⟨hpend, by simp [hne]⟩
    have hsum := missing_modify (·.setView acked) hc
    omega
  · exact (List.getElem?_modify_eq _ _ _).trans (by rw [hc]; rfl)
  · exact List.length_filter_lt_length_iff_exists.mpr ⟨seq', hseq', by simp⟩
  · rintro e ⟨hs, hlt, hp, ha⟩
    refine ⟨hs, hlt, fun hpend => hp (List.mem_filter.mp hpend).1, fun hack => ?_⟩
    rcases List.mem_cons.mp hack with rfl | hmem
    · exact hp hseq'
    · exact ha hmem

/-- One more delivery can be made, after an acknowledgement if too many are unanswered. -/
theorem exists_less_missing (deliverGroup : String) (h : Inv s) (hsettled : ¬ Settled s) :
    ∃ s', Reach (when (ofFn (step deliverGroup)) NoConnect) s s' ∧ s'.stored = s.stored ∧ Inv s' ∧
      s'.missing < s.missing := by
  obtain ⟨c, x, seq, hc, hmiss⟩ := exists_missing_of_not_settled hsettled
  have hok := h.ok x (List.mem_of_getElem? hc)
  by_cases hroom : x.consumer.view.pending.length < consumerConfig.maxAckPending
  · obtain ⟨s', hs', hstored, hless⟩ := exists_deliver deliverGroup hc hok hmiss hroom
    have hreach : Reach (when (ofFn (step deliverGroup)) NoConnect) s s' :=
      .single (a := .deliver c c seq) ⟨trivial, hs'⟩
    exact ⟨s', hreach, hstored, inv_step h hs', hless⟩
  · have hpos : 0 < x.consumer.view.pending.length :=
      lt_of_lt_of_le (by decide) (Nat.le_of_not_lt hroom)
    obtain ⟨seq', hseq'⟩ := List.exists_mem_of_length_pos hpos
    obtain ⟨s₁, x₁, hs₁, hle, hstored₁, hc₁, hroom₁, hkeep⟩ := exists_ack deliverGroup hc hseq'
    have hinv₁ := inv_step h hs₁
    have hmiss₁ : x₁.Missing s₁.stored seq := hstored₁ ▸ hkeep seq hmiss
    obtain ⟨s', hs', hstored, hless⟩ := exists_deliver deliverGroup hc₁
      (hinv₁.ok x₁ (List.mem_of_getElem? hc₁)) hmiss₁ (lt_of_lt_of_le hroom₁ hok.bounded)
    have hreach₁ : Reach (when (ofFn (step deliverGroup)) NoConnect) s s₁ :=
      .single (a := .ack c seq') ⟨trivial, hs₁⟩
    have hreach : Reach (when (ofFn (step deliverGroup)) NoConnect) s s' :=
      .tail (a := .deliver c c seq) hreach₁ ⟨trivial, hs'⟩
    exact ⟨s', hreach, hstored.trans hstored₁, inv_step hinv₁ hs', lt_of_lt_of_le hless hle⟩

/-- Nobody need connect and no event need come for everything to get delivered. -/
theorem exists_settled (deliverGroup : String) (h : Inv s) :
    ∃ s', Reach (when (ofFn (step deliverGroup)) NoConnect) s s' ∧ s'.stored = s.stored ∧
      Settled s' := by
  obtain ⟨s', hreach, ⟨-, hstored⟩, hsettled⟩ := Reach.exists_goal_of_decreasing
    (p := fun t => Inv t ∧ t.stored = s.stored) State.missing (fun t ⟨hinv, hstored⟩ hmore => by
      obtain ⟨t', hreach, hstored', hinv', hless⟩ := exists_less_missing deliverGroup hinv hmore
      exact ⟨t', hreach, ⟨hinv', hstored'.trans hstored⟩, hless⟩) ⟨h, rfl⟩
  exact ⟨s', hreach, hstored, hsettled⟩

/-- Once everything is delivered, every instance has every event stored after it connected. -/
theorem deliveries_of_settled (h : Inv s) (hs : Settled s)
    (hstart : ∀ x ∈ s.instances, x.consumer.view.startSeq ≤ seq) (hseq : seq < s.stored) :
    s.deliveries seq = s.instances.length := by
  have hone : ∀ x ∈ s.instances, x.received.count seq = 1 := by
    intro x hx
    rw [(h.ok x hx).received]
    apply if_pos
    by_contra hno
    obtain ⟨hpending, hacked⟩ := not_or.mp hno
    exact hs x hx seq ⟨hstart x hx, hseq, hpending, hacked⟩
  unfold State.deliveries
  rw [List.map_congr_left hone, List.map_const', List.sum_replicate, smul_eq_mul, mul_one]

/-- **An event reaches one instance of the group exactly if the group has one instance.** However
events are stored, delivered and acknowledged after the instances have connected, once everything
is delivered the events stored since then were delivered once if and only if there is exactly one
instance, or no such event. -/
theorem group_shares_work_iff (h₀ : Reach (ofFn (step deliverGroup)) init s₀)
    (h : Reach (when (ofFn (step deliverGroup)) NoConnect) s₀ s) (hs : Settled s) :
    (∀ seq, s₀.stored ≤ seq → seq < s.stored → s.deliveries seq = 1) ↔
      s₀.instances.length = 1 ∨ s.stored = s₀.stored := by
  obtain ⟨hinv, hjoined⟩ := joined_of_reach (inv_of_reach h₀) h
  have hcount : ∀ seq, s₀.stored ≤ seq → seq < s.stored →
      s.deliveries seq = s₀.instances.length := by
    intro seq hle hlt
    rw [← hjoined.length]
    exact deliveries_of_settled hinv hs (fun x hx => (hjoined.start x hx).trans hle) hlt
  constructor
  · intro hall
    rcases Nat.eq_or_lt_of_le hjoined.stored with heq | hlt
    · exact Or.inr heq.symm
    · exact Or.inl ((hcount _ (Nat.le_refl _) hlt).symm.trans (hall _ (Nat.le_refl _) hlt))
  · rintro (hone | heq) seq hle hlt
    · rw [hcount seq hle hlt, hone]
    · omega

/-! ### One ingester, and two -/

/-- An ingester of the group that has just connected to an empty stream. -/
def ingesterAt (newInbox uuid : String) : Instance :=
  ⟨connectConsumer newInbox uuid "ingester_group" 0, []⟩

theorem group_of_one_shares_work :
    ∃ s : State, s.stored = 1 ∧ Settled s ∧ s.deliveries 0 = 1 := by
  have h₀ : Reach (ofFn (step "ingester_group")) init ⟨0, [ingesterAt "_INBOX.a" "a"]⟩ :=
    .single (a := .connect "_INBOX.a" "a") (by simp [ofFn, step, init, ingesterAt])
  have hpublish : Reach (when (ofFn (step "ingester_group")) NoConnect)
      ⟨0, [ingesterAt "_INBOX.a" "a"]⟩ ⟨1, [ingesterAt "_INBOX.a" "a"]⟩ :=
    .single (a := .publish) ⟨trivial, rfl⟩
  obtain ⟨s, hs, hstored, hsettled⟩ := exists_settled "ingester_group"
    (inv_of_reach (h₀.trans hpublish.of_when))
  have hall := (group_shares_work_iff h₀ (hpublish.trans hs) hsettled).mpr (Or.inl rfl)
  refine ⟨s, hstored, hsettled, hall 0 (Nat.le_refl 0) ?_⟩
  rw [hstored]
  exact Nat.zero_lt_one

/-- Two ingesters of one group: both consumers deliver the first event, each to its own ingester. -/
theorem group_of_two_gets_event_twice :
    ∃ s₀ s : State, Reach (ofFn (step "ingester_group")) init s₀ ∧ s₀.stored = 0 ∧
      Reach (when (ofFn (step "ingester_group")) NoConnect) s₀ s ∧ s.deliveries 0 = 2 := by
  have h₀ : exec (step "ingester_group") init
      [.connect "_INBOX.a" "a", .connect "_INBOX.b" "b"] =
        some ⟨0, [ingesterAt "_INBOX.a" "a", ingesterAt "_INBOX.b" "b"]⟩ := by
    simp [exec, step, init, ingesterAt, connectConsumer, connectToNats, Builder.stream,
      ConfiguredStream.consumer]
  obtain ⟨s, hs, hp⟩ := exists_reach_when_of_exec (step "ingester_group") NoConnect
    ⟨0, [ingesterAt "_INBOX.a" "a", ingesterAt "_INBOX.b" "b"]⟩
    [.publish, .deliver 0 0 0, .deliver 1 1 0] (fun s => s.deliveries 0 == 2) (by decide)
  exact ⟨_, s, reach_of_exec h₀, rfl, hs, beq_iff_eq.mp hp⟩

end Group
end NatsConsumer
end RelayerCore
