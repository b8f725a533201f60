import RelayerCore.GcpConsumer.Model

/-!
# When a message id gets through twice

Between the `EXISTS` that finds no marker and the `SETEX` a delivery is open: it is on its way to
the application, or in its hands.  If no other delivery with the same `Msg-Id` is open whenever an
`EXISTS` finds no marker, at most one is open at any time, and all earlier ones were acknowledged
so long ago that their markers have expired.  Otherwise both can be acknowledged at once.
-/

namespace RelayerCore
namespace GcpConsumer

open Machine

variable {ι T : Type} {sub : Subscription ι T} {s s' : State ι}

/-- No two deliveries with the same `Msg-Id` were acknowledged within ten minutes. -/
def PassesOnce (sub : Subscription ι T) (s : State ι) : Prop :=
  ∀ x ∈ s.log, ∀ y ∈ s.log, x.event = .acked → y.event = .acked → x.delivery ≠ y.delivery →
    sub.msgId x.delivery = sub.msgId y.delivery → x.time ≤ y.time →
      x.time + TEN_MINUTES_IN_SECS ≤ y.time

/-- An `EXISTS` that finds no marker finds no other open delivery with the same `Msg-Id`. -/
def ChecksAlone (sub : Subscription ι T) (s : State ι) : Action ι → Prop
  | .call i (.isProcessed true) => s.phase i = .checking → s.marked sub i = false →
      ∀ j, j ≠ i → sub.msgId j = sub.msgId i → (s.phase j).isOpen = false
  | _ => True

instance [DecidableEq ι] [Fintype ι] (sub : Subscription ι T) (s : State ι) (a : Action ι) :
    Decidable (ChecksAlone sub s a) := by
  unfold ChecksAlone
  split <;> infer_instance

/-- The invariant of the runs whose checks are alone. -/
structure Exclusive (sub : Subscription ι T) (s : State ι) : Prop where
  decoded : Decoded sub s
  /-- The marker of an acknowledged delivery is kept for ten minutes. -/
  marker : ∀ x ∈ s.log, x.event = .acked → sub.decodes x.delivery = true ∧ x.time ≤ s.now ∧
    ∃ e, s.redis.expiry (sub.key x.delivery) = some e ∧ x.time + TEN_MINUTES_IN_SECS ≤ e
  once : PassesOnce sub s
  alone : ∀ i j, (s.phase i).isOpen = true → (s.phase j).isOpen = true →
    sub.msgId i = sub.msgId j → i = j
  /-- When a delivery is open, all others with its id were acknowledged ten minutes ago. -/
  late : ∀ i, (s.phase i).isOpen = true → ∀ x ∈ s.log, x.event = .acked →
    sub.msgId x.delivery = sub.msgId i → x.time + TEN_MINUTES_IN_SECS ≤ s.now

theorem exclusive_init (sub : Subscription ι T) (ackDeadlineSecs : ℤ) :
    Exclusive sub (init ι ackDeadlineSecs) where
  decoded _ h := by cases h
  marker _ h := by cases h
  once _ h := by cases h
  alone _ _ h := by cases h
  late _ h := by cases h

theorem isOpen_pastDecode {p : Phase} (h : p.isOpen = true) : p.pastDecode = true := by
  cases p <;> simp_all [Phase.isOpen, Phase.pastDecode]

/-- A delivery that finds no marker comes ten minutes after every acknowledgement of its id. -/
theorem late_of_not_marked {i : ι} (h : Exclusive sub s) (hdec : sub.decodes i = true)
    (hmark : s.marked sub i = false) {x : Entry ι} (hx : x ∈ s.log) (hack : x.event = .acked)
    (hid : sub.msgId x.delivery = sub.msgId i) : x.time + TEN_MINUTES_IN_SECS ≤ s.now := by
  obtain ⟨hdec', -, e, he, hle⟩ := h.marker x hx hack
  rw [(key_eq_iff hdec' hdec).2 hid] at he
  have hnot : ¬ s.now < e := by
    rw [← ExpiringStore.contains_of_expiry he]
    simpa [State.marked] using hmark
  omega

variable [DecidableEq ι]

section Call

variable {i : ι} {c : Call} {p : Phase} {e : Option Event}

/-- A call that does not acknowledge adds no acknowledgement. -/
theorem mem_of_mem_advance {key : String} {x : Entry ι} (he : e ≠ some .acked)
    (hx : x ∈ (s.advance key i c p e).log) (hack : x.event = .acked) : x ∈ s.log := by
  rcases mem_advance_log.1 hx with ⟨v, rfl, rfl⟩ | hx
  · exact absurd (congrArg some hack) he
  · exact hx

theorem marker_kept (h : Exclusive sub s) {x : Entry ι} (hx : x ∈ s.log)
    (hack : x.event = .acked) :
    sub.decodes x.delivery = true ∧ x.time ≤ (s.advance (sub.key i) i c p e).now ∧
      ∃ e', (s.advance (sub.key i) i c p e).redis.expiry (sub.key x.delivery) = some e' ∧
        x.time + TEN_MINUTES_IN_SECS ≤ e' := by
  obtain ⟨hdec, hle, hexp⟩ := h.marker x hx hack
  refine ⟨hdec, hle, ?_⟩
  by_cases hmarks : c.marks = true
  · simp only [State.advance, hmarks, if_true]
    exact ExpiringStore.exists_expiry_setEx hexp hle _
  · simp only [State.advance, hmarks]
    exact hexp

/-- A call that acknowledges comes ten minutes after every other one of the same id. -/
theorem exclusive_ack (h : Exclusive sub s)
    (hspec : MoveSpec (sub.decodes i) (s.marked sub i) (s.phase i) c p e)
    (hdec : Decoded sub (s.advance (sub.key i) i c p e)) (he : e = some .acked) :
    Exclusive sub (s.advance (sub.key i) i c p e) := by
  obtain ⟨hopen, hclosed, hmarks⟩ := hspec.acked he
  -- the log gains the acknowledgement of `i`, and `i` is open no more
  have hlog : ∀ x, x ∈ (s.advance (sub.key i) i c p e).log ↔ x = ⟨i, .acked, s.now⟩ ∨ x ∈ s.log := by
    intro x
    rw [mem_advance_log, he]
    simp
  have hopen' : ∀ j, ((s.advance (sub.key i) i c p e).phase j).isOpen = true →
      j ≠ i ∧ (s.phase j).isOpen = true := by
    intro j hj
    rcases of_advance_phase (P := fun q => q.isOpen = true) hj with ⟨-, hp⟩ | hj
    · rw [hclosed] at hp
      cases hp
    · exact hj
  refine ⟨hdec, fun x hx hack => ?_, fun x hx y hy hxa hya hne hid hle => ?_,
    fun j k hj hk hid => h.alone j k (hopen' j hj).2 (hopen' k hk).2 hid, fun j hj x hx hack hid => ?_⟩
  · rcases (hlog x).1 hx with rfl | hx
    · refine ⟨h.decoded i (isOpen_pastDecode hopen), le_rfl, s.now + TEN_MINUTES_IN_SECS, ?_, le_rfl⟩
      simp [State.advance, hmarks]
    · exact marker_kept h hx hack
  · rcases (hlog x).1 hx with rfl | hx <;> rcases (hlog y).1 hy with rfl | hy
    · exact absurd rfl hne
    · have hlate := h.late i hopen y hy hya hid.symm
      simp only [TEN_MINUTES_IN_SECS] at hlate hle ⊢
      omega
    · exact h.late i hopen x hx hxa hid
    · exact h.once x hx y hy hxa hya hne hid hle
  · obtain ⟨hji, hj⟩ := hopen' j hj
    rcases (hlog x).1 hx with rfl | hx
    · exact absurd (h.alone j i hj hopen hid.symm) hji
    · exact h.late j hj x hx hack hid

theorem exclusive_call (h : Exclusive sub s) (hok : ChecksAlone sub s (.call i c))
    (hmove : move (sub.decodes i) (s.marked sub i) (s.phase i) c = some (p, e)) :
    Exclusive sub (s.advance (sub.key i) i c p e) := by
  have hspec := move_spec hmove
  have hdec : Decoded sub (s.advance (sub.key i) i c p e) :=
    decoded_step (a := .call i c) h.decoded (by simp [step, hmove])
  by_cases he : e = some .acked
  · exact exclusive_ack h hspec hdec he
  have hlog : ∀ x ∈ (s.advance (sub.key i) i c p e).log, x.event = .acked → x ∈ s.log :=
    fun x hx hack => mem_of_mem_advance he hx hack
  have honce : PassesOnce sub (s.advance (sub.key i) i c p e) :=
    fun x hx y hy hxa hya => h.once x (hlog x hx hxa) y (hlog y hy hya) hxa hya
  -- either nothing opens, or `i` opens with no other delivery of its id open
  have hopen : ∀ j, ((s.advance (sub.key i) i c p e).phase j).isOpen = true →
      (s.phase j).isOpen = true ∨ j = i ∧ s.phase i = .checking ∧ s.marked sub i = false ∧
        ∀ k, k ≠ i → sub.msgId k = sub.msgId i → (s.phase k).isOpen = false := by
    intro j hj
    rcases of_advance_phase (P := fun q => q.isOpen = true) hj with ⟨rfl, hp⟩ | ⟨-, hj⟩
    · rcases hspec.isOpen hp with hp | ⟨rfl, hp, hmark⟩
      · exact Or.inl hp
      · exact Or.inr ⟨rfl, hp, hmark, hok hp hmark⟩
    · exact Or.inl hj
  refine ⟨hdec, fun x hx hack => marker_kept h (hlog x hx hack) hack, honce,
    fun j k hj hk hid => ?_, fun j hj x hx hack hid => ?_⟩
  · rcases hopen j hj with hj | ⟨hji, -, -, hall⟩ <;>
      rcases hopen k hk with hk | ⟨hki, -, -, hall'⟩
    · exact h.alone j k hj hk hid
    · by_contra hne
      rw [hall' j (hki ▸ hne) (hki ▸ hid)] at hj
      cases hj
    · by_contra hne
      rw [hall k (hji ▸ Ne.symm hne) (hji ▸ hid.symm)] at hk
      cases hk
    · rw [hji, hki]
  · have hold := hlog x hx hack
    rcases hopen j hj with hj | ⟨rfl, hp, hmark, -⟩
    · exact h.late j hj x hold hack hid
    · exact late_of_not_marked h (h.decoded j (by rw [hp]; rfl)) hmark hold hack hid

end Call

theorem exclusive_step {a : Action ι} (h : Exclusive sub s) (hok : ChecksAlone sub s a)
    (hs : step sub s a = some s') : Exclusive sub s' := by
  have hdec := decoded_step h.decoded hs
  cases a with
  | elapse secs =>
    cases hs
    refine ⟨hdec, fun x hx hack => ?_, h.once, h.alone, fun i hi x hx hack hid => ?_⟩
    · obtain ⟨hd, hle, hexp⟩ := h.marker x hx hack
      refine ⟨hd, ?_, hexp⟩
      show x.time ≤ s.now + secs
      omega
    · have hlate := h.late i hi x hx hack hid
      show x.time + TEN_MINUTES_IN_SECS ≤ s.now + secs
      omega
  | crash =>
    cases hs
    have hclosed : ∀ i : ι, ¬ (s.phase i).crash.isOpen = true := by
      intro i
      cases s.phase i <;> simp [Phase.crash, Phase.isOpen]
    exact ⟨hdec, h.marker, h.once, fun i _ hi => absurd hi (hclosed i),
      fun i hi => absurd hi (hclosed i)⟩
  | call i c =>
    obtain ⟨⟨p, e⟩, hmove, rfl⟩ := Option.map_eq_some_iff.1 hs
    exact exclusive_call h hok hmove

/-! ### Two open deliveries can both be acknowledged -/

/-- Later at the same time: delivery `i` may have moved on, the others have not. -/
structure Ahead (i : ι) (s s' : State ι) : Prop where
  now : s'.now = s.now
  others : ∀ j, j ≠ i → s'.phase j = s.phase j
  log : s.log ⊆ s'.log

omit [DecidableEq ι] in
theorem Ahead.trans {i : ι} {s'' : State ι} (h : Ahead i s s') (h' : Ahead i s' s'') :
    Ahead i s s'' :=
  ⟨h'.now.trans h.now, fun j hj => (h'.others j hj).trans (h.others j hj),
    fun _ hx => h'.log (h.log hx)⟩

/-- Delivery `i` can be acknowledged at once. -/
def CanAck (sub : Subscription ι T) (i : ι) (s : State ι) : Prop :=
  ∃ s', Reach (ofFn (step sub)) s s' ∧ Ahead i s s' ∧ ⟨i, .acked, s.now⟩ ∈ s'.log

section CanAck

variable {i : ι}

/-- A delivery whose next phase depends on nothing else can move on. -/
theorem exists_reach_call (sub : Subscription ι T) {c : Call} {p : Phase} {e : Option Event}
    (h : ∀ d m, move d m (s.phase i) c = some (p, e)) :
    ∃ s', Reach (ofFn (step sub)) s s' ∧ Ahead i s s' ∧ s'.phase i = p ∧
      ∀ v ∈ e, ⟨i, v, s.now⟩ ∈ s'.log := by
  refine ⟨s.advance (sub.key i) i c p e, .single (a := .call i c) ?_, ⟨rfl, ?_, ?_⟩, ?_, ?_⟩
  · simp [ofFn, step, h]
  · exact fun j hj => advance_phase_of_ne hj
  · exact fun x hx => mem_advance_log.2 (Or.inr hx)
  · exact advance_phase_self
  · exact fun v hv => mem_advance_log.2 (Or.inl ⟨v, hv, rfl⟩)

/-- A delivery that can move on to where it can be acknowledged. -/
theorem canAck_of_call {c : Call} {p : Phase} {e : Option Event}
    (h : ∀ d m, move d m (s.phase i) c = some (p, e))
    (hnext : ∀ s' : State ι, s'.phase i = p → CanAck sub i s') : CanAck sub i s := by
  obtain ⟨s₁, hr, ha, hp, -⟩ := exists_reach_call sub h
  obtain ⟨s₂, hr₂, ha₂, hlog⟩ := hnext s₁ hp
  exact ⟨s₂, hr.trans hr₂, ha.trans ha₂, ha.now ▸ hlog⟩

theorem canAck_of_marking (hp : s.phase i = .marking) : CanAck sub i s := by
  obtain ⟨s', hr, ha, -, hlog⟩ := exists_reach_call sub (s := s) (i := i) (c := .setEx .ok)
    (p := .acked) (e := some .acked) (by simp [hp, move])
  exact ⟨s', hr, ha, hlog _ rfl⟩

theorem canAck_of_handed (hp : s.phase i = .handed) : CanAck sub i s :=
  canAck_of_call (c := .ack true) (p := .marking) (e := some .pubsubAcked) (by simp [hp, move])
    fun _ => canAck_of_marking

theorem canAck_of_queued (hp : s.phase i = .queued) : CanAck sub i s :=
  canAck_of_call (c := .receive) (p := .handed) (e := some .handed) (by simp [hp, move])
    fun _ => canAck_of_handed

theorem canAck_of_forwarding (hp : s.phase i = .forwarding) : CanAck sub i s :=
  canAck_of_call (c := .forwardMessage true) (p := .queued) (e := none) (by simp [hp, move])
    fun _ => canAck_of_queued

/-- An open delivery can be acknowledged at once. -/
theorem canAck_of_isOpen (h : (s.phase i).isOpen = true) : CanAck sub i s := by
  cases hp : s.phase i with
  | marking => exact canAck_of_marking hp
  | handed => exact canAck_of_handed hp
  | queued => exact canAck_of_queued hp
  | forwarding => exact canAck_of_forwarding hp
  | _ => simp [hp, Phase.isOpen] at h

end CanAck

/-- Two open deliveries of one `Msg-Id` can be acknowledged at the same time. -/
theorem exists_twice_of_open {i j : ι} (hi : (s.phase i).isOpen = true)
    (hj : (s.phase j).isOpen = true) (hne : i ≠ j) (hid : sub.msgId i = sub.msgId j) :
    ∃ t, Reach (ofFn (step sub)) s t ∧ ¬ PassesOnce sub t := by
  obtain ⟨s₁, hr₁, ha₁, hlog₁⟩ : CanAck sub i s := canAck_of_isOpen hi
  have hj₁ : (s₁.phase j).isOpen = true := by rw [ha₁.others j hne.symm]; exact hj
  obtain ⟨s₂, hr₂, ha₂, hlog₂⟩ : CanAck sub j s₁ := canAck_of_isOpen hj₁
  refine ⟨s₂, hr₁.trans hr₂, fun honce => ?_⟩
  rw [ha₁.now] at hlog₂
  have := honce _ (ha₂.log hlog₁) _ hlog₂ rfl rfl hne hid le_rfl
  simp [TEN_MINUTES_IN_SECS] at this

theorem exists_twice_of_not_alone {a : Action ι} (hs : step sub s a = some s')
    (hno : ¬ ChecksAlone sub s a) : ∃ t, Reach (ofFn (step sub)) s' t ∧ ¬ PassesOnce sub t := by
  unfold ChecksAlone at hno
  split at hno
  · rename_i i
    push Not at hno
    obtain ⟨hp, hmark, j, hne, hid, hopen⟩ := hno
    -- the check of `i` opens it, and leaves `j` as it was
    simp [step, hp, hmark, move] at hs
    subst hs
    refine exists_twice_of_open (i := j) (j := i) ?_ (by simp [Phase.isOpen]) hne hid
    rw [advance_phase_of_ne hne]
    simpa using hopen
  · exact absurd trivial hno

/-- **A message id gets through once as long as checks are alone.** In a run whose every `EXISTS`
without a marker finds no other open delivery of the same id, no two deliveries with one id are
acknowledged within ten minutes; an `EXISTS` that does find one can be continued to two
acknowledgements at the same time. -/
theorem consumer_passes_once_iff_checks_alone (sub : Subscription ι T) (ackDeadlineSecs : ℤ) :
    (∀ s, Reach (when (ofFn (step sub)) (ChecksAlone sub)) (init ι ackDeadlineSecs) s →
      PassesOnce sub s) ∧
    ∀ s a s', step sub s a = some s' → ¬ ChecksAlone sub s a →
      ∃ t, Reach (ofFn (step sub)) s' t ∧ ¬ PassesOnce sub t := by
  refine ⟨fun s h => ?_, fun s a s' => exists_twice_of_not_alone⟩
  exact (h.invariant (exclusive_init sub ackDeadlineSecs)
    fun _ _ _ hinv hs => exclusive_step hinv hs.1 hs.2).once

/-! ### A redelivery while the first delivery waits -/

/-- A delivery up to its check. -/
def check : List Call := [.deliver, .decode, .isProcessed true]

/-- A delivery from its check to the acknowledgement. -/
def acknowledge : List Call := [.forwardMessage true, .receive, .ack true, .setEx .ok]

theorem consumer_passes_redelivery :
    ∃ s, Reach (ofFn (step eventQueue)) (init Bool 30) s ∧ ¬ PassesOnce eventQueue s := by
  obtain ⟨s, hs, hp⟩ := exists_reach_of_exec (step eventQueue) (init Bool 30)
    (check.map (.call false) ++ check.map (.call true) ++ acknowledge.map (.call false) ++
      [.elapse 60] ++ acknowledge.map (.call true))
    (fun s => s.log.contains ⟨false, .acked, 0⟩ && s.log.contains ⟨true, .acked, 60⟩) (by decide)
  simp only [Bool.and_eq_true, List.contains_iff_mem] at hp
  refine ⟨s, hs, fun honce => ?_⟩
  have := honce _ hp.1 _ hp.2 rfl rfl (by simp) rfl (by simp)
  simp [TEN_MINUTES_IN_SECS] at this

/-- The theorem on a redelivery after the marker has expired, and on an early one. -/
theorem consumer_passes_once_expired :
    (∃ s, (s.log.map Entry.event).count .acked = 2 ∧ PassesOnce eventQueue s) ∧
      ∃ s, ¬ PassesOnce eventQueue s := by
  constructor
  · obtain ⟨s, hs, hp⟩ := exists_reach_when_of_exec (step eventQueue) (ChecksAlone eventQueue)
      (init Bool 30)
      (check.map (.call false) ++ acknowledge.map (.call false) ++ [.elapse 600] ++
        check.map (.call true) ++ acknowledge.map (.call true))
      (fun s => (s.log.map Entry.event).count .acked == 2) (by decide)
    exact ⟨s, by simpa using hp, (consumer_passes_once_iff_checks_alone eventQueue 30).1 s hs⟩
  · obtain ⟨s, hs, hp⟩ := exists_reach_of_exec (step eventQueue) (init Bool 30)
      (check.map (.call false) ++ [.call true .deliver, .call true .decode])
      (fun s => decide (¬ ChecksAlone eventQueue s (.call true (.isProcessed true))) &&
        (step eventQueue s (.call true (.isProcessed true))).isSome) (by decide)
    rw [Bool.and_eq_true, decide_eq_true_eq, Option.isSome_iff_exists] at hp
    obtain ⟨hno, s', hs'⟩ := hp
    obtain ⟨t, -, ht⟩ := (consumer_passes_once_iff_checks_alone eventQueue 30).2 s _ s' hs' hno
    exact ⟨t, ht⟩

end GcpConsumer
end RelayerCore
