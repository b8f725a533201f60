import RelayerCore.GcpConsumer.Model

/-!
# No message is lost to the deduplication

The consumer acknowledges a delivery on its own only after an `EXISTS` found the marker of its key.
A marker is only written by the application's `Ack` of a delivery with the same key, after Pub/Sub
has taken it, and within one subscription equal keys mean equal ids.
-/

namespace RelayerCore
namespace GcpConsumer

open Machine

variable {ι T : Type} {sub : Subscription ι T} {s s' : State ι}

/-- The application was handed the delivery, and Pub/Sub took its `Ack`, which then returned `Ok`,
or failed only because the reply of Redis to the write of the marker was lost. -/
structure Acknowledged (log : List (Entry ι)) (j : ι) : Prop where
  handed : ∃ t, ⟨j, .handed, t⟩ ∈ log
  pubsubAcked : ∃ t, ⟨j, .pubsubAcked, t⟩ ∈ log
  marked : ∃ t, ⟨j, .acked, t⟩ ∈ log ∨ ⟨j, .replyLost, t⟩ ∈ log

/-- Some delivery with the same `Msg-Id` was handed over and acknowledged by the application. -/
def Processed (sub : Subscription ι T) (log : List (Entry ι)) (i : ι) : Prop :=
  ∃ j, sub.msgId j = sub.msgId i ∧ Acknowledged log j

/-- Every acknowledgement of the consumer's own comes after a processed delivery. -/
def Justified (sub : Subscription ι T) : List (Entry ι) → Prop
  | [] => True
  | x :: earlier => (x.event = .skipped → Processed sub earlier x.delivery) ∧ Justified sub earlier

theorem Acknowledged.mono {log log' : List (Entry ι)} {j : ι} (h : Acknowledged log j)
    (hsub : log ⊆ log') : Acknowledged log' j where
  handed := h.handed.imp fun _ ht => hsub ht
  pubsubAcked := h.pubsubAcked.imp fun _ ht => hsub ht
  marked := h.marked.imp fun _ ht => ht.imp (fun ht => hsub ht) fun ht => hsub ht

theorem Processed.mono {log log' : List (Entry ι)} {i : ι} (h : Processed sub log i)
    (hsub : log ⊆ log') : Processed sub log' i := by
  obtain ⟨j, hid, hack⟩ := h
  exact ⟨j, hid, hack.mono hsub⟩

theorem Justified.of_split {later earlier : List (Entry ι)} {x : Entry ι}
    (h : Justified sub (later ++ x :: earlier)) (hx : x.event = .skipped) :
    Processed sub earlier x.delivery := by
  induction later with
  | nil => exact h.1 hx
  | cons y later ih => exact ih h.2

/-- The consumer acknowledges a delivery on its own only after a processed one with the same
`Msg-Id`, and lets nothing through whose decoding or check failed. -/
def NeverLoses (sub : Subscription ι T) (s : State ι) : Prop :=
  (∀ later earlier i t, s.log = later ++ ⟨i, .skipped, t⟩ :: earlier → Processed sub earlier i) ∧
    ∀ i, (sub.decodes i = false ∨ ∃ t, ⟨i, .checkFailed, t⟩ ∈ s.log) →
      ∀ x ∈ s.log, x.delivery = i → x.event.letThrough = false

/-! ### The invariant of all runs -/

structure Inv (sub : Subscription ι T) (s : State ι) : Prop where
  decoded : Decoded sub s
  justified : Justified sub s.log
  /-- A marker is there because a delivery with its key was processed. -/
  marker : ∀ k x, s.redis.expiry k = some x → ∃ j, sub.decodes j = true ∧ sub.key j = k ∧
    Acknowledged s.log j
  duplicate : ∀ i, s.phase i = .duplicate → Processed sub s.log i
  handed : ∀ i, s.phase i = .handed ∨ s.phase i = .marking → ∃ t, ⟨i, .handed, t⟩ ∈ s.log
  marking : ∀ i, s.phase i = .marking → ∃ t, ⟨i, .pubsubAcked, t⟩ ∈ s.log
  fresh : ∀ i, (s.phase i).fresh = true → ∀ x ∈ s.log, x.delivery ≠ i
  undecoded : ∀ x ∈ s.log, x.event.letThrough = true → sub.decodes x.delivery = true
  failed : ∀ i t, ⟨i, .checkFailed, t⟩ ∈ s.log → (s.phase i).failedCheck = true ∧
    ∀ x ∈ s.log, x.delivery = i → x.event.letThrough = false

theorem inv_init (sub : Subscription ι T) (ackDeadlineSecs : ℤ) :
    Inv sub (init ι ackDeadlineSecs) where
  decoded _ h := by cases h
  justified := trivial
  marker _ _ h := by cases h
  duplicate _ h := by cases h
  handed _ h := by rcases h with h | h <;> cases h
  marking _ h := by cases h
  fresh _ _ _ h := by cases h
  undecoded _ h := by cases h
  failed _ _ h := by cases h

theorem Inv.neverLoses (h : Inv sub s) : NeverLoses sub s := by
  constructor
  · intro later earlier i t hlog
    have hjust := h.justified
    rw [hlog] at hjust
    exact hjust.of_split rfl
  · rintro i (hdec | ⟨t, ht⟩) x hx rfl
    · by_contra hthrough
      have := h.undecoded x hx (by simpa using hthrough)
      rw [hdec] at this
      cases this
    · exact (h.failed _ t ht).2 x hx rfl

/-- A delivery found marked has the `Msg-Id` of a processed one. -/
theorem processed_of_marked {i : ι} (h : Inv sub s) (hdec : sub.decodes i = true)
    (hmark : s.marked sub i = true) : Processed sub s.log i := by
  obtain ⟨x, hx, -⟩ := ExpiringStore.expiry_of_contains hmark
  obtain ⟨j, hj, hkey, hack⟩ := h.marker _ x hx
  exact ⟨j, (key_eq_iff hj hdec).1 hkey, hack⟩

variable [DecidableEq ι]

theorem log_subset_advance {key : String} {i : ι} {c : Call} {p : Phase} {e : Option Event} :
    s.log ⊆ (s.advance key i c p e).log := fun _ hx => mem_advance_log.2 (Or.inr hx)

section Call

variable {i : ι} {c : Call} {p : Phase} {e : Option Event}

/-- The event of a call is in the new log. -/
theorem mem_advance_of_event {key : String} {v : Event} (he : e = some v) :
    ⟨i, v, s.now⟩ ∈ (s.advance key i c p e).log := mem_advance_log.2 (Or.inl ⟨v, he, rfl⟩)

theorem justified_advance (h : Inv sub s)
    (hspec : MoveSpec (sub.decodes i) (s.marked sub i) (s.phase i) c p e) :
    Justified sub (s.advance (sub.key i) i c p e).log := by
  cases e with
  | none => exact h.justified
  | some v =>
    refine ⟨?_, h.justified⟩
    rintro rfl
    exact h.duplicate i (hspec.skipped rfl)

/-- A call that writes the marker completes the acknowledgement. -/
theorem acknowledged_of_marks (h : Inv sub s)
    (hspec : MoveSpec (sub.decodes i) (s.marked sub i) (s.phase i) c p e) (hmarks : c.marks = true) :
    Acknowledged (s.advance (sub.key i) i c p e).log i := by
  obtain ⟨hp, he⟩ := hspec.marks hmarks
  obtain ⟨t, ht⟩ := h.handed i (Or.inr hp)
  obtain ⟨t', ht'⟩ := h.marking i hp
  refine ⟨⟨t, log_subset_advance ht⟩, ⟨t', log_subset_advance ht'⟩, s.now, ?_⟩
  exact he.imp mem_advance_of_event mem_advance_of_event

theorem marker_advance (h : Inv sub s)
    (hspec : MoveSpec (sub.decodes i) (s.marked sub i) (s.phase i) c p e) :
    ∀ k x, (s.advance (sub.key i) i c p e).redis.expiry k = some x →
      ∃ j, sub.decodes j = true ∧ sub.key j = k ∧
        Acknowledged (s.advance (sub.key i) i c p e).log j := by
  intro k x hx
  have hold : s.redis.expiry k = some x → ∃ j, sub.decodes j = true ∧ sub.key j = k ∧
      Acknowledged (s.advance (sub.key i) i c p e).log j := by
    intro hx
    obtain ⟨j, hj, hkey, hack⟩ := h.marker k x hx
    exact ⟨j, hj, hkey, hack.mono log_subset_advance⟩
  by_cases hmarks : c.marks = true
  · have hack := acknowledged_of_marks h hspec hmarks
    simp only [State.advance, hmarks, if_true] at hx
    rcases ExpiringStore.expiry_setEx_cases hx with rfl | hx
    · have hp := (hspec.marks hmarks).1
      exact ⟨i, h.decoded i (by rw [hp]; rfl), rfl, hack⟩
    · exact hold hx
  · simp only [State.advance, hmarks] at hx
    exact hold hx

/-- A delivery about to be acknowledged by the consumer was found marked. -/
theorem duplicate_advance (h : Inv sub s)
    (hspec : MoveSpec (sub.decodes i) (s.marked sub i) (s.phase i) c p e) :
    ∀ j, (s.advance (sub.key i) i c p e).phase j = .duplicate → Processed sub s.log j := by
  intro j hj
  rcases of_advance_phase (P := fun q => q = .duplicate) hj with ⟨rfl, hp⟩ | ⟨-, hj⟩
  · obtain ⟨hcheck, hmark⟩ := hspec.duplicate hp
    exact processed_of_marked h (h.decoded j (by rw [hcheck]; rfl)) hmark
  · exact h.duplicate j hj

theorem handed_advance (h : Inv sub s)
    (hspec : MoveSpec (sub.decodes i) (s.marked sub i) (s.phase i) c p e) :
    ∀ j, (s.advance (sub.key i) i c p e).phase j = .handed ∨
        (s.advance (sub.key i) i c p e).phase j = .marking →
      ∃ t, ⟨j, .handed, t⟩ ∈ (s.advance (sub.key i) i c p e).log := by
  intro j hj
  rcases of_advance_phase (P := fun q => q = .handed ∨ q = .marking) hj with ⟨rfl, hp⟩ | ⟨-, hj⟩
  · rcases hspec.handed hp with he | hp
    · exact ⟨s.now, mem_advance_of_event he⟩
    · obtain ⟨t, ht⟩ := h.handed j hp
      exact ⟨t, log_subset_advance ht⟩
  · obtain ⟨t, ht⟩ := h.handed j hj
    exact ⟨t, log_subset_advance ht⟩

theorem marking_advance (h : Inv sub s)
    (hspec : MoveSpec (sub.decodes i) (s.marked sub i) (s.phase i) c p e) :
    ∀ j, (s.advance (sub.key i) i c p e).phase j = .marking →
      ∃ t, ⟨j, .pubsubAcked, t⟩ ∈ (s.advance (sub.key i) i c p e).log := by
  intro j hj
  rcases of_advance_phase (P := fun q => q = .marking) hj with ⟨rfl, hp⟩ | ⟨-, hj⟩
  · exact ⟨s.now, mem_advance_of_event (hspec.marking hp)⟩
  · obtain ⟨t, ht⟩ := h.marking j hj
    exact ⟨t, log_subset_advance ht⟩

theorem fresh_advance (h : Inv sub s)
    (hspec : MoveSpec (sub.decodes i) (s.marked sub i) (s.phase i) c p e) :
    ∀ j, ((s.advance (sub.key i) i c p e).phase j).fresh = true →
      ∀ x ∈ (s.advance (sub.key i) i c p e).log, x.delivery ≠ j := by
  intro j hj x hx
  rcases of_advance_phase (P := fun q => q.fresh = true) hj with ⟨rfl, hp⟩ | ⟨hji, hj⟩
  · obtain ⟨hfresh, he⟩ := hspec.fresh hp
    rcases mem_advance_log.1 hx with ⟨v, hv, -⟩ | hx
    · rw [he] at hv
      cases hv
    · exact h.fresh j hfresh x hx
  · rcases mem_advance_log.1 hx with ⟨v, -, rfl⟩ | hx
    · exact Ne.symm hji
    · exact h.fresh j hj x hx

/-- Nothing but the failure is ever observed of a delivery whose check failed. -/
theorem failed_advance (h : Inv sub s)
    (hspec : MoveSpec (sub.decodes i) (s.marked sub i) (s.phase i) c p e) :
    ∀ j t, ⟨j, .checkFailed, t⟩ ∈ (s.advance (sub.key i) i c p e).log →
      ((s.advance (sub.key i) i c p e).phase j).failedCheck = true ∧
        ∀ x ∈ (s.advance (sub.key i) i c p e).log, x.delivery = j → x.event.letThrough = false := by
  intro j t hj
  rcases mem_advance_log.1 hj with ⟨v, hv, hjv⟩ | hj
  · -- the check that fails is the first thing observed of the delivery
    cases hjv
    obtain ⟨hfresh, hp⟩ := hspec.checkFailed hv
    refine ⟨by rwa [advance_phase_self], fun x hx hxi => ?_⟩
    rcases mem_advance_log.1 hx with ⟨w, hw, rfl⟩ | hx
    · rw [hv] at hw
      cases hw
      rfl
    · exact absurd hxi (h.fresh i hfresh x hx)
  · obtain ⟨hphase, hall⟩ := h.failed j t hj
    by_cases hji : j = i
    · -- and the way it goes on is not observed
      subst hji
      obtain ⟨hp, he⟩ := hspec.failedCheck hphase
      refine ⟨by rwa [advance_phase_self], fun x hx hxj => ?_⟩
      rcases mem_advance_log.1 hx with ⟨w, hw, -⟩ | hx
      · rw [he] at hw
        cases hw
      · exact hall x hx hxj
    · refine ⟨by rwa [advance_phase_of_ne hji], fun x hx hxj => ?_⟩
      rcases mem_advance_log.1 hx with ⟨w, -, rfl⟩ | hx
      · exact absurd hxj.symm hji
      · exact hall x hx hxj

theorem inv_call (h : Inv sub s)
    (hmove : move (sub.decodes i) (s.marked sub i) (s.phase i) c = some (p, e)) :
    Inv sub (s.advance (sub.key i) i c p e) := by
  have hspec := move_spec hmove
  constructor
  · exact decoded_step (a := .call i c) h.decoded (by simp [step, hmove])
  · exact justified_advance h hspec
  · exact marker_advance h hspec
  · exact fun j hj => (duplicate_advance h hspec j hj).mono log_subset_advance
  · exact handed_advance h hspec
  · exact marking_advance h hspec
  · exact fresh_advance h hspec
  · intro x hx hthrough
    rcases mem_advance_log.1 hx with ⟨v, hv, rfl⟩ | hx
    · exact h.decoded i (hspec.letThrough v hv hthrough).1
    · exact h.undecoded x hx hthrough
  · exact failed_advance h hspec

end Call

/-- After a crash no delivery is on its way. -/
theorem crash_ne (p : Phase) :
    p.crash ≠ .duplicate ∧ p.crash ≠ .handed ∧ p.crash ≠ .marking := by
  cases p <;> simp [Phase.crash]

/-- A crash takes every delivery to the end of its way. -/
theorem inv_crash (h : Inv sub s) (hs : step sub s .crash = some s') : Inv sub s' := by
  have hdec := decoded_step h.decoded hs
  cases hs
  refine ⟨hdec, h.justified, h.marker, ?_, ?_, ?_, ?_, h.undecoded, ?_⟩
  · intro i hi
    exact absurd hi (crash_ne (s.phase i)).1
  · rintro i (hi | hi)
    · exact absurd hi (crash_ne (s.phase i)).2.1
    · exact absurd hi (crash_ne (s.phase i)).2.2
  · intro i hi
    exact absurd hi (crash_ne (s.phase i)).2.2
  · intro i hi
    apply h.fresh i
    change (s.phase i).crash.fresh = true at hi
    cases hp : s.phase i <;> simp_all [Phase.crash, Phase.fresh]
  · intro i t ht
    obtain ⟨hf, hall⟩ := h.failed i t ht
    refine ⟨?_, hall⟩
    show (s.phase i).crash.failedCheck = true
    cases hp : s.phase i <;> simp_all [Phase.crash, Phase.failedCheck]

theorem inv_step {a : Action ι} (h : Inv sub s) (hs : step sub s a = some s') : Inv sub s' := by
  cases a with
  | elapse secs =>
    cases hs
    exact ⟨h.decoded, h.justified, h.marker, h.duplicate, h.handed, h.marking, h.fresh,
      h.undecoded, h.failed⟩
  | crash => exact inv_crash h hs
  | call i c =>
    obtain ⟨⟨p, e⟩, hmove, rfl⟩ := Option.map_eq_some_iff.1 hs
    exact inv_call h hmove

/-- **The deduplication loses no message.** In every run, the consumer acknowledges a delivery
without handing it over only after a delivery with the same `Msg-Id` was handed over and
acknowledged, and a delivery whose decoding or check failed is never acknowledged. -/
theorem consumer_loses_none {ackDeadlineSecs : ℤ}
    (h : Reach (ofFn (step sub)) (init ι ackDeadlineSecs) s) : NeverLoses sub s :=
  (h.invariant (inv_init sub ackDeadlineSecs) fun _ _ _ => inv_step).neverLoses

/-- The theorem on a message that is redelivered after it was acknowledged. -/
theorem consumer_loses_none_redelivered :
    ∃ s : State Bool, s.log.map Entry.event = [.skipped, .acked, .pubsubAcked, .handed] ∧
      NeverLoses eventQueue s := by
  obtain ⟨s, hs, hp⟩ := exists_reach_of_exec (step eventQueue) (init Bool 30)
    ([.deliver, .decode, .isProcessed true, .forwardMessage true, .receive, .ack true,
      .setEx .ok].map (.call false) ++ [.elapse 599] ++
      [.deliver, .decode, .isProcessed true, .ackDuplicate true].map (.call true))
    (fun s => s.log.map Entry.event == [.skipped, .acked, .pubsubAcked, .handed])
    (by decide)
  exact ⟨s, by simpa using hp, consumer_loses_none hs⟩

end GcpConsumer
end RelayerCore
