import RelayerCore.Ingester.Line
import RelayerCore.Lib.Fair

/-!
# Every event is posted (`amplifier-ingester/src/lib.rs`, `infrastructure/src/gcp/consumer.rs`)

Once nothing fails any more, a delivery gets through its callback, the messages before it leave the
channel one by one, as the ones that are worked on are done, and then its event is posted and
acknowledged.

* `checking`, `waiting`, `working`: the three parts of the way;
* `every_event_posted`: every event that is published is posted.
-/

namespace RelayerCore
namespace Ingester
namespace Gcp

open Machine
open GcpConsumer (Subscription Call Phase)
open Queue (PublishMessage ContextFits)

/-! ### Who goes on -/

/-- Nothing fails, and the API answers with successes that decode. -/
def Smooth {ι : Type} (fromSlice : List UInt8 → Option PublishEventsResult)
    (fromSliceError : List UInt8 → Option ErrorResponse) (_ : Line ι) : Action ι → Prop
  | .crash | .callback _ (.isProcessed false) | .callback _ (.ackDuplicate false)
  | .callback _ (.forwardMessage false) | .ack _ false | .setEx _ (.err _) => False
  | .exchange _ x => (resultsOf fromSlice fromSliceError x).isSome
  | _ => True

inductive Helper (ι : Type)
  | callback (i : ι)
  | channel
  | job

/-- The callback of a delivery, the stream that takes from the channel, and the message that has
been worked on for longest. -/
def Action.helper {ι : Type} : Action ι → Option (Helper ι)
  | .callback i _ => some (.callback i)
  | .receive _ | .receiveErr => some .channel
  | .exchange 0 _ | .ack 0 _ | .setEx 0 _ | .drop 0 => some .job
  | _ => none

def Helper.labels {ι : Type} (H : Helper ι) : Set (Action ι) := {a | a.helper = some H}

/-- The steps until a delivery has gone through the callback. -/
def stage : Phase → ℕ
  | .absent => 4
  | .received => 3
  | .checking => 2
  | .duplicate | .forwarding => 1
  | _ => 0

/-- The steps until a message is done with. -/
def Work.rest : Work → Phase → ℕ
  | .posting, _ => 4
  | .acking _, .marking => 2
  | .acking _, _ => 3
  | .done, _ => 1

theorem Work.rest_bounds (work : Work) (p : Phase) : 1 ≤ work.rest p ∧ work.rest p ≤ 4 := by
  cases work <;> cases p <;> simp [Work.rest]

/-- The steps until the first message is done with. -/
def Line.rest {ι : Type} (l : Line ι) : ℕ :=
  match l.ingester.inFlight[0]? with
  | none => 0
  | some job => job.work.rest (l.ingester.consumer.phase job.delivery)

theorem Line.rest_of_first {ι : Type} {l : Line ι} {job : Job ι}
    (h : l.ingester.inFlight[0]? = some job) :
    l.rest = job.work.rest (l.ingester.consumer.phase job.delivery) := by
  unfold Line.rest
  rw [h]

theorem Line.rest_congr {ι : Type} {l l' : Line ι}
    (hfirst : l'.ingester.inFlight[0]? = l.ingester.inFlight[0]?)
    (hphase : ∀ job, l.ingester.inFlight[0]? = some job →
      l'.ingester.consumer.phase job.delivery = l.ingester.consumer.phase job.delivery) :
    l'.rest = l.rest := by
  unfold Line.rest
  rw [hfirst]
  cases hl : l.ingester.inFlight[0]? with
  | none => rfl
  | some job => simp only [hphase job hl]

theorem Line.rest_le {ι : Type} (l : Line ι) : l.rest ≤ 4 := by
  unfold Line.rest
  split
  · exact Nat.zero_le 4
  · exact (Work.rest_bounds _ _).2

theorem Line.rest_pos {ι : Type} {l : Line ι} (h : l.ingester.inFlight ≠ []) : 1 ≤ l.rest := by
  obtain ⟨first, others, hin⟩ := List.exists_cons_of_ne_nil h
  have hfirst : l.ingester.inFlight[0]? = some first := by
    rw [hin]
    rfl
  rw [Line.rest_of_first hfirst]
  exact (Work.rest_bounds _ _).1

section Progress

variable {ι : Type} [DecidableEq ι] {fromSlice : List UInt8 → Option PublishEventsResult}
  {fromSliceError : List UInt8 → Option ErrorResponse} {sub : Subscription ι Event}
  {chain : String} {concurrentQueueItems : ℕ} {l l' : Line ι} {a : Action ι}

/-- What is known of every state. -/
structure Known (fromSlice : List UInt8 → Option PublishEventsResult)
    (fromSliceError : List UInt8 → Option ErrorResponse) (sub : Subscription ι Event)
    (chain : String) (concurrentQueueItems : ℕ) (l : Line ι) : Prop where
  ordered : Ordered fromSlice fromSliceError l
  inv : Inv fromSlice fromSliceError sub chain concurrentQueueItems l.ingester

theorem known_step (h : Known fromSlice fromSliceError sub chain concurrentQueueItems l)
    (hs : Line.step fromSlice fromSliceError sub chain concurrentQueueItems l a = some l') :
    Known fromSlice fromSliceError sub chain concurrentQueueItems l' :=
  ⟨ordered_step h.ordered hs, inv_step h.inv (Line.step_eq_some.1 hs).2⟩

omit [DecidableEq ι] in
/-- A message moves on: the first one, or the first one stays as it is. -/
theorem rest_set {s' : State ι} {n : ℕ} {job job' : Job ι}
    (hsingle : (l.ingester.inFlight.map Job.delivery).Nodup)
    (hn : l.ingester.inFlight[n]? = some job) (hin : s'.inFlight = l.ingester.inFlight.set n job')
    (hphase : ∀ j ≠ job.delivery, s'.consumer.phase j = l.ingester.consumer.phase j)
    (hd : job'.delivery = job.delivery)
    (hrest : job'.work.rest (s'.consumer.phase job.delivery) <
      job.work.rest (l.ingester.consumer.phase job.delivery)) {channel : List (Option ι)} :
    n = 0 ∧ Line.rest { ingester := s', channel } < l.rest ∨
      n ≠ 0 ∧ Line.rest { ingester := s', channel } = l.rest := by
  by_cases hzero : n = 0
  · subst hzero
    refine Or.inl ⟨rfl, ?_⟩
    have hn' : s'.inFlight[0]? = some job' := by
      rw [hin, List.getElem?_set_self (List.getElem?_eq_some_iff.1 hn).1]
    rw [Line.rest_of_first hn, Line.rest_of_first (l := { ingester := s', channel }) hn', hd]
    exact hrest
  · refine Or.inr ⟨hzero, Line.rest_congr ?_ fun first hfirst => ?_⟩
    · show s'.inFlight[0]? = _
      rw [hin, List.getElem?_set_ne hzero]
    · exact hphase _ (Keyed.ne_of_getElem? hsingle hn hfirst (Ne.symm hzero))

omit [DecidableEq ι] in
theorem helper_ne_job {n : ℕ} (hn : n ≠ 0) :
    (∀ x, (Action.exchange n x : Action ι).helper ≠ some .job) ∧
      (∀ ok, (Action.ack n ok : Action ι).helper ≠ some .job) ∧
      (∀ reply, (Action.setEx n reply : Action ι).helper ≠ some .job) ∧
      (Action.drop n : Action ι).helper ≠ some .job := by
  cases n with
  | zero => exact absurd rfl hn
  | succ n => simp [Action.helper]

/-- What a step does to the messages in flight: the first one goes on or stays as it is, one is
received, or one is dropped. -/
theorem turn_of_step (h : Ordered fromSlice fromSliceError l)
    (hok : Smooth fromSlice fromSliceError l a)
    (hs : Line.step fromSlice fromSliceError sub chain concurrentQueueItems l a = some l') :
    (l'.ingester.inFlight.map Job.delivery = l.ingester.inFlight.map Job.delivery ∧
        (l'.rest < l.rest ∨ l'.rest = l.rest ∧ a.helper ≠ some .job)) ∨
      (∃ i event, a = .receive i ∧
        l'.ingester.inFlight = l.ingester.inFlight ++ [⟨i, event, .posting⟩] ∧
        (l.ingester.inFlight ≠ [] → l'.rest = l.rest)) ∨
      ∃ n i event, a = .drop n ∧ l.ingester.inFlight[n]? = some ⟨i, event, .done⟩ ∧
        l'.ingester.inFlight = l.ingester.inFlight.eraseIdx n ∧ (n ≠ 0 → l'.rest = l.rest) := by
  obtain ⟨s', channel⟩ := l'
  obtain ⟨hchannel, hstep⟩ := Line.step_eq_some.1 hs
  have hset : ∀ {n : ℕ} {job : Job ι} (job' : Job ι) {s' : State ι},
      l.ingester.inFlight[n]? = some job → s'.inFlight = l.ingester.inFlight.set n job' →
      (∀ j ≠ job.delivery, s'.consumer.phase j = l.ingester.consumer.phase j) →
      job'.delivery = job.delivery →
      job'.work.rest (s'.consumer.phase job.delivery) <
        job.work.rest (l.ingester.consumer.phase job.delivery) →
      (n ≠ 0 → a.helper ≠ some .job) →
      s'.inFlight.map Job.delivery = l.ingester.inFlight.map Job.delivery ∧
        (Line.rest { ingester := s', channel } < l.rest ∨
          Line.rest { ingester := s', channel } = l.rest ∧ a.helper ≠ some .job) := by
    intro n job job' s' hn hin hphase hd hrest hne
    refine ⟨by rw [hin, Keyed.map_set hn hd], ?_⟩
    rcases rest_set h.single hn hin hphase hd hrest with ⟨-, hlt⟩ | ⟨hzero, heq⟩
    · exact Or.inl hlt
    · exact Or.inr ⟨heq, hne hzero⟩
  cases acts_of_step hstep with
  | elapse secs consumer hconsumer =>
    cases hconsumer
    exact Or.inl ⟨rfl, Or.inr ⟨rfl, by simp [Action.helper]⟩⟩
  | crash => exact hok.elim
  | callback i c consumer hc hconsumer =>
    refine Or.inl ⟨rfl, Or.inr ⟨Line.rest_congr rfl fun first hfirst => ?_,
      by simp [Action.helper]⟩⟩
    exact (phase_of_call hconsumer).2 _
      (h.ne_of_callback (List.mem_of_getElem? hfirst) hc hconsumer)
  | receive i m consumer hdec hroom hconsumer =>
    refine Or.inr (Or.inl ⟨i, m.decoded, rfl, rfl, fun hne => ?_⟩)
    refine Line.rest_congr ?_ fun first hfirst => (phase_of_call hconsumer).2 _ ?_
    · exact List.getElem?_append_left (List.length_pos_iff.2 hne)
    · exact h.ne_of_receive (List.mem_of_getElem? hfirst) hconsumer
  | receiveErr => exact Or.inl ⟨rfl, Or.inr ⟨rfl, by simp [Action.helper]⟩⟩
  | exchange n i event x hn =>
    have hp : l.ingester.consumer.phase i = .handed := h.fits _ (List.mem_of_getElem? hn)
    refine Or.inl (hset ⟨i, event, .acking x⟩ hn rfl (fun _ _ => rfl) rfl ?_
      fun hne => (helper_ne_job hne).1 x)
    show Work.rest (.acking x) (l.ingester.consumer.phase i) < _
    simp [hp, Work.rest]
  | acked n i event x consumer hn hresults hconsumer =>
    obtain ⟨⟨e, hmove⟩, hother⟩ := phase_of_call hconsumer
    obtain ⟨hp, hp'⟩ := move_ack hmove
    refine Or.inl (hset _ hn (Keyed.set_of_getElem? hn).symm hother rfl ?_
      fun hne => (helper_ne_job hne).2.1 true)
    show Work.rest (.acking x) (consumer.phase i) < _
    simp [hp, hp', Work.rest]
  | ackFails => exact hok.elim
  | nak n ok i event x consumer hn hresults hconsumer =>
    obtain ⟨⟨e, hmove⟩, hother⟩ := phase_of_call hconsumer
    refine Or.inl (hset ⟨i, event, .done⟩ hn rfl hother rfl ?_
      fun hne => (helper_ne_job hne).2.1 ok)
    simp [(move_nak hmove).1, Work.rest]
  | setEx n reply i event x consumer hn hconsumer =>
    obtain ⟨⟨e, hmove⟩, hother⟩ := phase_of_call hconsumer
    refine Or.inl (hset ⟨i, event, .done⟩ hn rfl hother rfl ?_
      fun hne => (helper_ne_job hne).2.2.1 reply)
    simp [(move_setEx hmove).1, Work.rest]
  | drop n i event consumer hn hconsumer =>
    refine Or.inr (Or.inr ⟨n, i, event, rfl, hn, rfl, fun hzero => ?_⟩)
    refine Line.rest_congr ?_ fun first hfirst => ?_
    · exact List.getElem?_eraseIdx_of_lt (Nat.pos_of_ne_zero hzero)
    · have hne := Keyed.ne_of_getElem? h.single hn hfirst (Ne.symm hzero)
      rcases hconsumer with ⟨-, hconsumer⟩ | ⟨-, rfl⟩
      · exact (phase_of_call hconsumer).2 _ hne
      · rfl

theorem helper_enabled {H : Helper ι} (hok : Smooth fromSlice fromSliceError l a)
    (ha : a.helper = some H) (hchannel : (l.nextChannel a).isSome)
    (hs : (Gcp.step fromSlice fromSliceError sub chain concurrentQueueItems l.ingester a).isSome) :
    Enabled (when (ofFn (Line.step fromSlice fromSliceError sub chain concurrentQueueItems))
      (Smooth fromSlice fromSliceError)) H.labels l := by
  obtain ⟨channel, hchannel⟩ := Option.isSome_iff_exists.1 hchannel
  obtain ⟨s', hs⟩ := Option.isSome_iff_exists.1 hs
  exact ⟨a, ha, { ingester := s', channel }, hok, Line.step_eq_some.2 ⟨hchannel, hs⟩⟩

theorem consume_isSome {s : State ι} {i : ι} {c : Call} :
    (s.consume sub (.call i c)).isSome =
      (GcpConsumer.move (sub.decodes i) (s.consumer.marked sub i) (s.consumer.phase i)
        c).isSome := by
  simp [State.consume, GcpConsumer.step]

/-- While there is room, what comes first in the channel can be taken. -/
theorem channel_enabled (h : Known fromSlice fromSliceError sub chain concurrentQueueItems l)
    (hroom : HasRoom concurrentQueueItems l.ingester) (hne : l.channel ≠ []) :
    Enabled (when (ofFn (Line.step fromSlice fromSliceError sub chain concurrentQueueItems))
      (Smooth fromSlice fromSliceError)) Helper.channel.labels l := by
  obtain ⟨item, rest, hchannel⟩ := List.exists_cons_of_ne_nil hne
  cases item with
  | none =>
    have herrs : 0 < l.ingester.channelErrs := by
      rw [← h.ordered.errs, hchannel, List.count_cons_self]
      omega
    refine helper_enabled (a := .receiveErr) trivial rfl ?_ ?_
    · simp [Line.nextChannel, hchannel]
    · simp [Gcp.step, hroom, herrs]
  | some i =>
    have hphase : l.ingester.consumer.phase i = .queued := by
      by_contra hno
      have hcount := h.ordered.queued i
      rw [if_neg hno, hchannel, List.count_cons_self] at hcount
      omega
    have hdecodes : sub.decodes i = true := h.inv.consumer.decoded i (by rw [hphase]; rfl)
    obtain ⟨m, hdec⟩ : ∃ m, sub.decoded i = .ok m := by
      cases hd : sub.decoded i with
      | error err => simp [Subscription.decodes, hd, Except.toBool] at hdecodes
      | ok m => exact ⟨m, rfl⟩
    refine helper_enabled (a := .receive i) trivial rfl ?_ ?_
    · simp [Line.nextChannel, hchannel]
    · simp only [Gcp.step, hdec, hroom, if_true, Option.isSome_map, consume_isSome, hphase]
      rfl

/-- The first message in flight can go on. -/
theorem job_enabled (h : Ordered fromSlice fromSliceError l) {x : Exchange}
    (hx : (resultsOf fromSlice fromSliceError x).isSome) (hne : l.ingester.inFlight ≠ []) :
    Enabled (when (ofFn (Line.step fromSlice fromSliceError sub chain concurrentQueueItems))
      (Smooth fromSlice fromSliceError)) Helper.job.labels l := by
  obtain ⟨⟨i, event, work⟩, others, hin⟩ := List.exists_cons_of_ne_nil hne
  have hfits : work.Fits fromSlice fromSliceError (l.ingester.consumer.phase i) :=
    h.fits ⟨i, event, work⟩ (by rw [hin]; exact List.mem_cons_self)
  cases work with
  | posting =>
    refine helper_enabled (a := .exchange 0 x) hx rfl rfl ?_
    simp [Gcp.step, hin]
  | acking y =>
    rcases hfits with hp | ⟨hp, -⟩
    · refine helper_enabled (a := .ack 0 true) trivial rfl rfl ?_
      simp only [Gcp.step, hin, List.getElem?_cons_zero, processed_sent]
      split_ifs <;> simp only [Option.isSome_map, consume_isSome, hp] <;> rfl
    · refine helper_enabled (a := .setEx 0 .ok) trivial rfl rfl ?_
      simp only [Gcp.step, hin, List.getElem?_cons_zero, Option.isSome_map, consume_isSome, hp]
      rfl
  | done =>
    refine helper_enabled (a := .drop 0) trivial rfl rfl ?_
    simp only [Gcp.step, hin, List.getElem?_cons_zero, Option.isSome_map]
    split_ifs with hp
    · rw [consume_isSome, hp]
      rfl
    · rfl

/-! ### Through the callback -/

omit [DecidableEq ι] in
/-- A call that does not fail takes a delivery on, to a duplicate's end or into the channel. -/
theorem stage_of_move {i : ι} {m : Bool} {p p' : Phase} {c : Call} {e : Option GcpConsumer.Event}
    (hok : Smooth fromSlice fromSliceError l (.callback i c)) (hp : 0 < stage p)
    (h : GcpConsumer.move true m p c = some (p', e)) :
    0 < stage p' ∧ stage p' < stage p ∨ e = some .skipped ∨
      p = .forwarding ∧ c = .forwardMessage true := by
  unfold GcpConsumer.move at h
  split at h <;> (try split_ifs at h) <;> cases h <;> simp_all [stage, Smooth]

/-- A delivery on its way through the callback moves by its own callback only. -/
theorem stage_of_step {s s' : State ι} {i : ι} (hok : Smooth fromSlice fromSliceError l a)
    (hp : 0 < stage (s.consumer.phase i))
    (hs : Gcp.step fromSlice fromSliceError sub chain concurrentQueueItems s a = some s') :
    (a.helper ≠ some (.callback i) ∧ s'.consumer.phase i = s.consumer.phase i) ∨
      ∃ c, a = .callback i c ∧ GcpConsumer.step sub s.consumer (.call i c) = some s'.consumer := by
  have hother : ∀ {j : ι} {c : Call} {consumer : GcpConsumer.State ι},
      GcpConsumer.step sub s.consumer (.call j c) = some consumer →
      stage (s.consumer.phase j) = 0 → consumer.phase i = s.consumer.phase i := by
    intro j c consumer hconsumer hj
    refine (phase_of_call hconsumer).2 i ?_
    rintro rfl
    omega
  cases acts_of_step hs with
  | elapse secs consumer hconsumer =>
    cases hconsumer
    exact Or.inl ⟨by simp [Action.helper], rfl⟩
  | crash => exact hok.elim
  | callback j c consumer hc hconsumer =>
    by_cases hji : j = i
    · subst hji
      exact Or.inr ⟨c, rfl, hconsumer⟩
    · exact Or.inl ⟨by simp [Action.helper, hji], (phase_of_call hconsumer).2 i (Ne.symm hji)⟩
  | receive j m consumer hdec hroom hconsumer =>
    obtain ⟨⟨e, hmove⟩, -⟩ := phase_of_call hconsumer
    exact Or.inl ⟨by simp [Action.helper], hother hconsumer (by rw [(move_receive hmove).1]; rfl)⟩
  | receiveErr => exact Or.inl ⟨by simp [Action.helper], rfl⟩
  | exchange n j event x hn => exact Or.inl ⟨by cases n <;> simp [Action.helper], rfl⟩
  | acked n j event x consumer hn hresults hconsumer =>
    obtain ⟨⟨e, hmove⟩, -⟩ := phase_of_call hconsumer
    exact Or.inl ⟨by cases n <;> simp [Action.helper],
      hother hconsumer (by rw [(move_ack hmove).1]; rfl)⟩
  | ackFails => exact hok.elim
  | nak n ok j event x consumer hn hresults hconsumer =>
    obtain ⟨⟨e, hmove⟩, -⟩ := phase_of_call hconsumer
    exact Or.inl ⟨by cases n <;> simp [Action.helper],
      hother hconsumer (by rw [(move_nak hmove).1]; rfl)⟩
  | setEx n reply j event x consumer hn hconsumer =>
    obtain ⟨⟨e, hmove⟩, -⟩ := phase_of_call hconsumer
    exact Or.inl ⟨by cases n <;> simp [Action.helper],
      hother hconsumer (by rw [(move_setEx hmove).1]; rfl)⟩
  | drop n j event consumer hn hconsumer =>
    refine Or.inl ⟨by cases n <;> simp [Action.helper], ?_⟩
    rcases hconsumer with ⟨hphase, hconsumer⟩ | ⟨-, rfl⟩
    · exact hother hconsumer (by rw [hphase]; rfl)
    · rfl

theorem callback_enabled {i : ι} (hp : 0 < stage (l.ingester.consumer.phase i)) :
    Enabled (when (ofFn (Line.step fromSlice fromSliceError sub chain concurrentQueueItems))
      (Smooth fromSlice fromSliceError)) (Helper.callback i).labels l := by
  have hcall : ∀ {c : Call}, ofCallback c = true →
      (GcpConsumer.move (sub.decodes i) (l.ingester.consumer.marked sub i)
        (l.ingester.consumer.phase i) c).isSome →
      (Gcp.step fromSlice fromSliceError sub chain concurrentQueueItems l.ingester
        (.callback i c)).isSome := by
    intro c hc hmove
    simpa only [Gcp.step, hc, if_true, Option.isSome_map, consume_isSome] using hmove
  cases hphase : l.ingester.consumer.phase i with
  | absent =>
    exact helper_enabled (a := .callback i .deliver) trivial rfl rfl
      (hcall rfl (by rw [hphase]; rfl))
  | received =>
    refine helper_enabled (a := .callback i .decode) trivial rfl rfl (hcall rfl ?_)
    rw [hphase]
    cases sub.decodes i <;> rfl
  | checking =>
    refine helper_enabled (a := .callback i (.isProcessed true)) trivial rfl rfl (hcall rfl ?_)
    rw [hphase]
    cases l.ingester.consumer.marked sub i <;> rfl
  | duplicate =>
    exact helper_enabled (a := .callback i (.ackDuplicate true)) trivial rfl rfl
      (hcall rfl (by rw [hphase]; rfl))
  | forwarding =>
    exact helper_enabled (a := .callback i (.forwardMessage true)) trivial rfl rfl
      (hcall rfl (by rw [hphase]; rfl))
  | failing | queued | handed | marking | acked | skipped | failed | gone =>
    rw [hphase] at hp
    cases hp

/-- A delivery that decodes gets into the channel, or is a duplicate. -/
theorem checking {i : ι} (hdec : sub.decodes i = true) :
    Ranking (when (ofFn (Line.step fromSlice fromSliceError sub chain concurrentQueueItems))
        (Smooth fromSlice fromSliceError)) Helper.labels
      (fun l => Known fromSlice fromSliceError sub chain concurrentQueueItems l ∧
        0 < stage (l.ingester.consumer.phase i))
      (fun l => some i ∈ l.channel ∨ ∃ t, ⟨i, .skipped, t⟩ ∈ l.ingester.consumer.log)
      (fun l => stage (l.ingester.consumer.phase i)) (fun _ => .callback i) where
  enabled _ h _ := callback_enabled h.2
  step l a l' h _ hs := by
    obtain ⟨hknown, hp⟩ := h
    obtain ⟨hok, hs⟩ := hs
    have hknown' := known_step hknown hs
    obtain ⟨hchannel, hstep⟩ := Line.step_eq_some.1 hs
    rcases stage_of_step hok hp hstep with ⟨hne, hsame⟩ | ⟨c, rfl, hconsumer⟩
    · exact Or.inr ⟨⟨hknown', hsame ▸ hp⟩, Or.inr ⟨by rw [hsame], rfl, hne⟩⟩
    · obtain ⟨⟨p, e⟩, hmove, hadvance⟩ := Option.map_eq_some_iff.1 hconsumer
      rw [hdec] at hmove
      have hphase : l'.ingester.consumer.phase i = p := by
        rw [← hadvance]
        exact GcpConsumer.advance_phase_self
      rcases stage_of_move hok hp hmove with ⟨hpos, hlt⟩ | rfl | ⟨hforwarding, rfl⟩
      · exact Or.inr ⟨⟨hknown', hphase ▸ hpos⟩, Or.inl (hphase ▸ hlt)⟩
      · refine Or.inl (Or.inr ⟨l.ingester.consumer.now, ?_⟩)
        rw [← hadvance]
        exact GcpConsumer.mem_advance_of_event rfl
      · refine Or.inl (Or.inl ?_)
        have hnew := Option.some.inj hchannel
        rw [← hnew, hforwarding]
        simp

/-! ### Through the channel -/

omit [DecidableEq ι] in
theorem hasRoom_congr (concurrentQueueItems : ℕ) {s s' : State ι}
    (h : s'.inFlight.length = s.inFlight.length) :
    HasRoom concurrentQueueItems s' ↔ HasRoom concurrentQueueItems s := by
  rw [HasRoom, HasRoom, h]

/-- A delivery in the channel is received, or comes closer to its beginning. -/
theorem channel_of_step {i : ι} (hi : some i ∈ l.channel)
    (hok : Smooth fromSlice fromSliceError l a)
    (hs : Line.step fromSlice fromSliceError sub chain concurrentQueueItems l a = some l') :
    (∃ event, ⟨i, event, .posting⟩ ∈ l'.ingester.inFlight) ∨ some i ∈ l'.channel ∧
      (l'.channel.idxOf (some i) < l.channel.idxOf (some i) ∧
          HasRoom concurrentQueueItems l.ingester ∨
        l'.channel.idxOf (some i) = l.channel.idxOf (some i) ∧ a.helper ≠ some .channel) := by
  obtain ⟨s', channel⟩ := l'
  obtain ⟨hchannel, hstep⟩ := Line.step_eq_some.1 hs
  have hsame : channel = l.channel → a.helper ≠ some .channel → some i ∈ channel ∧
      (channel.idxOf (some i) < l.channel.idxOf (some i) ∧
          HasRoom concurrentQueueItems l.ingester ∨
        channel.idxOf (some i) = l.channel.idxOf (some i) ∧ a.helper ≠ some .channel) := by
    rintro rfl hne
    exact ⟨hi, Or.inr ⟨rfl, hne⟩⟩
  have htail : ∀ {item : Option ι} {rest : List (Option ι)}, l.channel = item :: rest →
      item ≠ some i → some i ∈ rest ∧ rest.idxOf (some i) < l.channel.idxOf (some i) := by
    intro item rest hrest hne
    rw [hrest] at hi ⊢
    refine ⟨(List.mem_cons.1 hi).resolve_left (Ne.symm hne), ?_⟩
    rw [List.idxOf_cons_ne rest hne]
    exact Nat.lt_succ_self _
  cases acts_of_step hstep with
  | crash => exact hok.elim
  | callback j c consumer hc hconsumer =>
    rcases nextChannel_callback hchannel with ⟨-, hchannel⟩ | ⟨-, hchannel⟩
    · refine Or.inr ⟨by rw [hchannel]; exact List.mem_append_left _ hi,
        Or.inr ⟨?_, by simp [Action.helper]⟩⟩
      rw [hchannel, List.idxOf_append_of_mem hi]
    · exact Or.inr (hsame hchannel (by simp [Action.helper]))
  | receive j m consumer hdec hroom hconsumer =>
    by_cases hji : j = i
    · subst hji
      exact Or.inl ⟨m.decoded, List.mem_append_right _ List.mem_cons_self⟩
    · obtain ⟨hmem, hlt⟩ := htail (nextChannel_receive hchannel) (by simpa using hji)
      exact Or.inr ⟨hmem, Or.inl ⟨hlt, hroom⟩⟩
  | receiveErr hroom herrs =>
    obtain ⟨hmem, hlt⟩ := htail (nextChannel_receiveErr hchannel) (by simp)
    exact Or.inr ⟨hmem, Or.inl ⟨hlt, hroom⟩⟩
  | elapse =>
    exact Or.inr (hsame (Option.some.inj hchannel).symm (by simp [Action.helper]))
  | exchange n | acked n | ackFails n | nak n | setEx n | drop n =>
    exact Or.inr (hsame (Option.some.inj hchannel).symm (by cases n <;> simp [Action.helper]))

/-- The messages before a delivery are taken as soon as there is room. -/
def waitRank (concurrentQueueItems : ℕ) (i : ι) (l : Line ι) : ℕ :=
  5 * l.channel.idxOf (some i) + if HasRoom concurrentQueueItems l.ingester then 0 else l.rest

def waitHelper (concurrentQueueItems : ℕ) (l : Line ι) : Helper ι :=
  if HasRoom concurrentQueueItems l.ingester then .channel else .job

/-- What is in the channel is received. -/
theorem waiting {x : Exchange} (hx : (resultsOf fromSlice fromSliceError x).isSome) (i : ι) :
    Ranking (when (ofFn (Line.step fromSlice fromSliceError sub chain concurrentQueueItems))
        (Smooth fromSlice fromSliceError)) Helper.labels
      (fun l => Known fromSlice fromSliceError sub chain concurrentQueueItems l ∧
        some i ∈ l.channel)
      (fun l => ∃ event, ⟨i, event, .posting⟩ ∈ l.ingester.inFlight)
      (waitRank concurrentQueueItems i) (waitHelper concurrentQueueItems) where
  enabled l h _ := by
    obtain ⟨hknown, hi⟩ := h
    unfold waitHelper
    split_ifs with hroom
    · exact channel_enabled hknown hroom (List.ne_nil_of_mem hi)
    · refine job_enabled hknown.ordered hx ?_
      rintro hnil
      refine hroom ((Nat.eq_zero_or_pos _).imp id fun hpos => ?_)
      rwa [hnil]
  step l a l' h _ hs := by
    obtain ⟨hknown, hi⟩ := h
    obtain ⟨hok, hs⟩ := hs
    have hknown' := known_step hknown hs
    rcases channel_of_step hi hok hs with hgoal | ⟨hi', hidx⟩
    · exact Or.inl hgoal
    refine Or.inr ⟨⟨hknown', hi'⟩, ?_⟩
    have hrest := l'.rest_le
    rcases turn_of_step hknown.ordered hok hs with ⟨hdel, hturn⟩ |
      ⟨j, event, rfl, hin, -⟩ | ⟨n, j, event, rfl, hn, hin, -⟩
    · have hlen : l'.ingester.inFlight.length = l.ingester.inFlight.length := by
        rw [← List.length_map, hdel, List.length_map]
      have hroom := hasRoom_congr concurrentQueueItems hlen
      simp only [waitRank, waitHelper, hroom]
      split_ifs with hr
      · rcases hidx with ⟨hlt, -⟩ | ⟨heq, hne⟩
        · exact Or.inl (by omega)
        · exact Or.inr ⟨by omega, trivial, hne⟩
      · have hidx' : l'.channel.idxOf (some i) = l.channel.idxOf (some i) := by
          rcases hidx with ⟨-, hr'⟩ | ⟨heq, -⟩
          · exact absurd hr' hr
          · exact heq
        rcases hturn with hlt | ⟨heq, hne⟩
        · exact Or.inl (by omega)
        · exact Or.inr ⟨by omega, trivial, hne⟩
    · -- the room that was there may be gone
      rcases hidx with ⟨hlt, hr⟩ | ⟨-, hne⟩
      · refine Or.inl ?_
        simp only [waitRank, if_pos hr]
        split_ifs <;> omega
      · exact absurd rfl hne
    · have hlt : n < l.ingester.inFlight.length := (List.getElem?_eq_some_iff.1 hn).1
      have hlen : l'.ingester.inFlight.length = l.ingester.inFlight.length - 1 := by
        rw [hin, List.length_eraseIdx_of_lt hlt]
      have hr' : HasRoom concurrentQueueItems l'.ingester :=
        hknown.inv.limit.imp id fun hle => by omega
      have hpos := Line.rest_pos (List.ne_nil_of_length_pos (Nat.zero_lt_of_lt hlt))
      simp only [waitRank, waitHelper, if_pos hr']
      split_ifs with hr
      · rcases hidx with ⟨hlt', -⟩ | ⟨heq, hne⟩
        · exact Or.inl (by omega)
        · exact Or.inr ⟨by omega, rfl, hne⟩
      · refine Or.inl ?_
        rcases hidx with ⟨-, hr''⟩ | ⟨heq, -⟩
        · exact absurd hr'' hr
        · omega

/-! ### Through the request -/

/-- The event of a message in flight is still to be acknowledged, and will be. -/
def Job.Owed (fromSlice : List UInt8 → Option PublishEventsResult)
    (fromSliceError : List UInt8 → Option ErrorResponse) (phase : ι → Phase) (job : Job ι) : Prop :=
  job.work = .posting ∨ phase job.delivery = .handed ∧
    ∃ x, job.work = .acking x ∧ (resultsOf fromSlice fromSliceError x).isSome

/-- A message that will be acknowledged is, or it still will be. -/
theorem owed_of_step {job : Job ι} (h : Ordered fromSlice fromSliceError l)
    (hjob : job ∈ l.ingester.inFlight)
    (howed : job.Owed fromSlice fromSliceError l.ingester.consumer.phase)
    (hok : Smooth fromSlice fromSliceError l a)
    (hs : Line.step fromSlice fromSliceError sub chain concurrentQueueItems l a = some l') :
    (∃ t, ⟨job.delivery, .pubsubAcked, t⟩ ∈ l'.ingester.consumer.log) ∨
      ∃ job' ∈ l'.ingester.inFlight, job'.delivery = job.delivery ∧
        job'.Owed fromSlice fromSliceError l'.ingester.consumer.phase := by
  obtain ⟨s', channel⟩ := l'
  obtain ⟨-, hstep⟩ := Line.step_eq_some.1 hs
  have hstays : job ∈ s'.inFlight →
      s'.consumer.phase job.delivery = l.ingester.consumer.phase job.delivery →
      ∃ job' ∈ s'.inFlight, job'.delivery = job.delivery ∧
        job'.Owed fromSlice fromSliceError s'.consumer.phase := by
    intro hmem hphase
    refine ⟨job, hmem, rfl, ?_⟩
    rw [Job.Owed, hphase]
    exact howed
  have hone : ∀ {n : ℕ} {other : Job ι}, l.ingester.inFlight[n]? = some other →
      job = other ∨ job.delivery ≠ other.delivery := fun hn =>
    Keyed.eq_or_ne h.single (List.mem_of_getElem? hn) hjob
  cases acts_of_step hstep with
  | elapse secs consumer hconsumer =>
    cases hconsumer
    exact Or.inr (hstays hjob rfl)
  | crash => exact hok.elim
  | callback i c consumer hc hconsumer =>
    have hne := h.ne_of_callback hjob hc hconsumer
    exact Or.inr (hstays hjob ((phase_of_call hconsumer).2 _ hne))
  | receive i m consumer hdec hroom hconsumer =>
    have hne := h.ne_of_receive hjob hconsumer
    exact Or.inr (hstays (List.mem_append_left _ hjob) ((phase_of_call hconsumer).2 _ hne))
  | receiveErr => exact Or.inr (hstays hjob rfl)
  | exchange n i event y hn =>
    rcases hone hn with rfl | hne
    · have hp : l.ingester.consumer.phase i = .handed := h.fits _ hjob
      exact Or.inr ⟨⟨i, event, .acking y⟩,
        List.mem_set (List.getElem?_eq_some_iff.1 hn).1 _, rfl, Or.inr ⟨hp, y, rfl, hok⟩⟩
    · exact Or.inr (hstays (Keyed.mem_set_of_ne hn hjob hne) rfl)
  | acked n i event y consumer hn hresults hconsumer =>
    rcases hone hn with rfl | hne
    · obtain ⟨⟨p, e⟩, hmove, rfl⟩ := Option.map_eq_some_iff.1 hconsumer
      rw [(move_ack hmove).1] at hmove
      cases hmove
      exact Or.inl ⟨_, GcpConsumer.mem_advance_of_event rfl⟩
    · exact Or.inr (hstays hjob ((phase_of_call hconsumer).2 _ hne))
  | ackFails => exact hok.elim
  | nak n ok i event y consumer hn hresults hconsumer =>
    rcases hone hn with rfl | hne
    · rcases howed with hposting | ⟨-, x, hx, hsuccess⟩
      · cases hposting
      · cases hx
        rw [hresults] at hsuccess
        cases hsuccess
    · exact Or.inr (hstays (Keyed.mem_set_of_ne hn hjob hne) ((phase_of_call hconsumer).2 _ hne))
  | setEx n reply i event y consumer hn hconsumer =>
    rcases hone hn with rfl | hne
    · obtain ⟨⟨e, hmove⟩, -⟩ := phase_of_call hconsumer
      rcases howed with hposting | ⟨hp, -⟩
      · cases hposting
      · rw [(move_setEx hmove).1] at hp
        cases hp
    · exact Or.inr (hstays (Keyed.mem_set_of_ne hn hjob hne) ((phase_of_call hconsumer).2 _ hne))
  | drop n i event consumer hn hconsumer =>
    rcases hone hn with rfl | hne
    · rcases howed with hposting | ⟨-, x, hx, -⟩
      · cases hposting
      · cases hx
    · refine Or.inr (hstays (Keyed.mem_eraseIdx_of_ne hn hjob hne) ?_)
      rcases hconsumer with ⟨-, hconsumer⟩ | ⟨-, rfl⟩
      · exact (phase_of_call hconsumer).2 _ hne
      · rfl

def workRank (i : ι) (l : Line ι) : ℕ :=
  5 * (l.ingester.inFlight.map Job.delivery).idxOf i + l.rest

/-- What is received is acknowledged. -/
theorem working {x : Exchange} (hx : (resultsOf fromSlice fromSliceError x).isSome) (i : ι) :
    Ranking (when (ofFn (Line.step fromSlice fromSliceError sub chain concurrentQueueItems))
        (Smooth fromSlice fromSliceError)) Helper.labels
      (fun l => Known fromSlice fromSliceError sub chain concurrentQueueItems l ∧
        ∃ job ∈ l.ingester.inFlight, job.delivery = i ∧
          job.Owed fromSlice fromSliceError l.ingester.consumer.phase)
      (fun l => ∃ t, ⟨i, .pubsubAcked, t⟩ ∈ l.ingester.consumer.log)
      (workRank i) (fun _ => .job) where
  enabled l h _ := by
    obtain ⟨hknown, job, hjob, -⟩ := h
    exact job_enabled hknown.ordered hx (List.ne_nil_of_mem hjob)
  step l a l' h _ hs := by
    obtain ⟨hknown, job, hjob, rfl, howed⟩ := h
    obtain ⟨hok, hs⟩ := hs
    rcases owed_of_step hknown.ordered hjob howed hok hs with hgoal | howed'
    · exact Or.inl hgoal
    refine Or.inr ⟨⟨known_step hknown hs, howed'⟩, ?_⟩
    have hmem : job.delivery ∈ l.ingester.inFlight.map Job.delivery := List.mem_map_of_mem hjob
    rcases turn_of_step hknown.ordered hok hs with ⟨hdel, hlt | ⟨heq, hne⟩⟩ |
      ⟨j, event, rfl, hin, hrest⟩ | ⟨n, j, event, rfl, hn, hin, hrest⟩
    · exact Or.inl (by rw [workRank, workRank, hdel]; omega)
    · exact Or.inr ⟨by rw [workRank, workRank, hdel, heq], rfl, hne⟩
    · refine Or.inr ⟨?_, rfl, by simp [Helper.labels, Action.helper]⟩
      rw [workRank, workRank, hin, List.map_append, List.idxOf_append_of_mem hmem,
        hrest (List.ne_nil_of_mem hjob)]
    · have hother : (l.ingester.inFlight.map Job.delivery)[n]? ≠ some job.delivery := by
        rw [List.getElem?_map, hn]
        intro hj
        rcases Keyed.eq_or_ne hknown.ordered.single (List.mem_of_getElem? hn) hjob with rfl | hne
        · rcases howed with hposting | ⟨-, y, hy, -⟩
          · cases hposting
          · cases hy
        · exact hne (Option.some.inj hj).symm
      rw [workRank, workRank, hin, ← List.eraseIdx_map]
      rcases Keyed.idxOf_eraseIdx hknown.ordered.single hmem hother with hlt | ⟨hzero, heq⟩
      · have hle := l'.rest_le
        exact Or.inl (by omega)
      · exact Or.inr ⟨by rw [heq, hrest hzero], rfl, (helper_ne_job hzero).2.2.2⟩

end Progress

/-! ### Every event is posted -/

/-- The delivery is not in the application's hands yet, and none of its calls has failed. -/
def coming : Phase → Bool
  | .absent | .received | .checking | .duplicate | .forwarding | .queued => true
  | _ => false

theorem stage_of_coming {p : Phase} (h : coming p = true) : 0 < stage p ∨ p = .queued := by
  cases p <;> simp_all [coming, stage]

section Published

variable {ι : Type} [DecidableEq ι] {fromSlice : List UInt8 → Option PublishEventsResult}
  {fromSliceError : List UInt8 → Option ErrorResponse} {name chain : String}
  {context : ι → List (String × String)} {message : ι → PublishMessage Event}
  {concurrentQueueItems : ℕ}

/-- A delivery that gets through is acknowledged. -/
theorem acknowledged {sub : Subscription ι Event} {x : Exchange}
    (hx : (resultsOf fromSlice fromSliceError x).isSome)
    (ρ : Execution (when (ofFn (Line.step fromSlice fromSliceError sub chain concurrentQueueItems))
      (Smooth fromSlice fromSliceError)))
    (hknown : ∀ n, Known fromSlice fromSliceError sub chain concurrentQueueItems (ρ.state n))
    (hfair : ∀ H : Helper ι, ρ.FairTo H.labels) {n : ℕ} {i : ι} (hdec : sub.decodes i = true)
    (hi : coming ((ρ.state n).ingester.consumer.phase i) = true) :
    ∃ m ≥ n, ∃ t, ⟨i, .pubsubAcked, t⟩ ∈ (ρ.state m).ingester.consumer.log ∨
      ⟨i, .skipped, t⟩ ∈ (ρ.state m).ingester.consumer.log := by
  obtain ⟨m, hm, hqueued | ⟨t, ht⟩⟩ : ∃ m ≥ n, some i ∈ (ρ.state m).channel ∨
      ∃ t, ⟨i, .skipped, t⟩ ∈ (ρ.state m).ingester.consumer.log := by
    rcases stage_of_coming hi with hstage | hqueued
    · exact (checking hdec).leadsTo ρ hfair ⟨hknown n, hstage⟩
    · refine ⟨n, le_rfl, Or.inl (List.count_pos_iff.1 ?_)⟩
      rw [(hknown n).ordered.queued, if_pos hqueued]
      exact Nat.one_pos
  · obtain ⟨m', hm', event, hjob⟩ := (waiting hx i).leadsTo ρ hfair ⟨hknown m, hqueued⟩
    obtain ⟨m'', hm'', t, ht⟩ := (working hx i).leadsTo ρ hfair
      ⟨hknown m', _, hjob, rfl, Or.inl rfl⟩
    exact ⟨m'', by omega, t, Or.inl ht⟩
  · exact ⟨m, hm, t, Or.inr ht⟩

/-- **Every event that is published is posted.**  Whatever has failed before, once nothing fails any
more every delivery that is still to come is acknowledged some time, and by then its event was
posted alone and answered with a success that decodes, in an execution that is fair to the
callbacks, to the stream and to the message worked on for longest. -/
theorem every_event_posted {ackDeadlineSecs : ℤ}
    (hevent : ∀ i, Event.borsh.Fits (message i).data)
    (hcontext : ∀ i, ContextFits (context i) (message i).deduplicationId)
    (hids : ∀ i j, (message i).deduplicationId = (message j).deduplicationId →
      (message i).data = (message j).data)
    {x : Exchange} (hx : (resultsOf fromSlice fromSliceError x).isSome)
    (ρ : Execution (when (ofFn (Line.step fromSlice fromSliceError (published name context message)
      chain concurrentQueueItems)) (Smooth fromSlice fromSliceError)))
    (h0 : Reach (ofFn (Line.step fromSlice fromSliceError (published name context message) chain
      concurrentQueueItems)) (Line.init ι ackDeadlineSecs) (ρ.state 0))
    (hfair : ∀ H : Helper ι, ρ.FairTo H.labels) {n : ℕ} {i : ι}
    (hi : coming ((ρ.state n).ingester.consumer.phase i) = true) :
    ∃ m ≥ n, ∃ e ∈ (ρ.state m).ingester.consumer.log, e.delivery = i ∧
      (e.event = .pubsubAcked ∨ e.event = .skipped) ∧
      ∃ y r, (⟨.new chain, ⟨[(message i).data]⟩⟩, y) ∈ (ρ.state m).ingester.posted ∧
        resultsOf fromSlice fromSliceError y = some r := by
  have hknown : ∀ n, Known fromSlice fromSliceError (published name context message) chain
      concurrentQueueItems (ρ.state n) := by
    intro n
    refine ρ.stays (fun s a s' h hs => known_step h hs.2) (Nat.zero_le n) ?_
    exact h0.invariant (p := Known _ _ _ _ _)
      ⟨ordered_init ackDeadlineSecs, inv_init ackDeadlineSecs⟩ fun _ _ _ => known_step
  have hdec : (published name context message).decodes i = true := by
    rw [Subscription.decodes, decoded_published (hevent i) (hcontext i)]
    rfl
  obtain ⟨m, hm, t, hlog⟩ := acknowledged hx ρ hknown hfair hdec hi
  rcases hlog with hacked | hskipped
  · exact ⟨m, hm, _, hacked, rfl, Or.inl rfl,
      posted_of_gone hevent hcontext hids (hknown m).inv hacked (Or.inl rfl)⟩
  · exact ⟨m, hm, _, hskipped, rfl, Or.inr rfl,
      posted_of_gone hevent hcontext hids (hknown m).inv hskipped (Or.inr rfl)⟩

end Published

instance {ι : Type} (fromSlice : List UInt8 → Option PublishEventsResult)
    (fromSliceError : List UInt8 → Option ErrorResponse) (l : Line ι) (a : Action ι) :
    Decidable (Smooth fromSlice fromSliceError l a) := by
  unfold Smooth
  split <;> infer_instance

/-- Nothing is left to do for the two deliveries. -/
structure Settled (l : Line Bool) : Prop where
  first : l.ingester.consumer.phase false = .acked
  second : l.ingester.consumer.phase true = .skipped
  channel : l.channel = []
  inFlight : l.ingester.inFlight = []

theorem Settled.disabled {fromSlice : List UInt8 → Option PublishEventsResult}
    {fromSliceError : List UInt8 → Option ErrorResponse} {sub : Subscription Bool Event}
    {chain : String} {concurrentQueueItems : ℕ} {l : Line Bool} (h : Settled l) (H : Helper Bool) :
    ∀ a ∈ H.labels,
      Line.step fromSlice fromSliceError sub chain concurrentQueueItems l a = none := by
  intro a ha
  by_contra hs
  obtain ⟨⟨s', channel⟩, hs⟩ := Option.ne_none_iff_exists'.1 hs
  obtain ⟨hchannel, hstep⟩ := Line.step_eq_some.1 hs
  cases acts_of_step hstep with
  | elapse | crash => cases ha
  | callback i c consumer hc hconsumer =>
    obtain ⟨⟨e, hmove⟩, -⟩ := phase_of_call hconsumer
    cases i <;> simp [h.first, h.second, GcpConsumer.move] at hmove
  | receive i => simp [Line.nextChannel, h.channel] at hchannel
  | receiveErr => simp [Line.nextChannel, h.channel] at hchannel
  | exchange n i event x hn | acked n i event x consumer hn | ackFails n i event x consumer hn
  | nak n ok i event x consumer hn | setEx n reply i event x consumer hn
  | drop n i event consumer hn => simp [h.inFlight] at hn

/-- The theorem on the event that is delivered once more after it was acknowledged. -/
theorem every_event_posted_once :
    ∃ ρ : Execution (when (ofFn (Line.step decodeResults decodeError
        (published "events" (fun _ => []) rotations) "solana" 1))
        (Smooth decodeResults decodeError)),
      (ρ.state 0).ingester.posted = [] ∧
        ∃ m y r, (⟨.new "solana", ⟨[rotation]⟩⟩, y) ∈ (ρ.state m).ingester.posted ∧
          resultsOf decodeResults decodeError y = some r := by
  obtain ⟨l, hl, hp⟩ : ∃ l, exec (guarded (Line.step decodeResults decodeError
      (published "events" (fun _ => []) rotations) "solana" 1) (Smooth decodeResults decodeError))
      (Line.init Bool 30) deliveredTwice = some l ∧
      (decide (l.ingester.consumer.phase false = .acked) &&
        decide (l.ingester.consumer.phase true = .skipped) && l.channel == [] &&
        l.ingester.inFlight == []) = true :=
    Option.map_eq_some_iff.1 (by decide +kernel)
  simp only [Bool.and_eq_true, beq_iff_eq, decide_eq_true_eq] at hp
  obtain ⟨⟨⟨hfirst, hsecond⟩, hchannel⟩, hin⟩ := hp
  have hend : Settled l := ⟨hfirst, hsecond, hchannel, hin⟩
  have hzero : (ofExecWhen hl).state 0 = Line.init Bool 30 := ofExec_zero hl
  have hid : Borsh.string.Fits "0xab-0" := Borsh.fits_string.mpr (by decide)
  obtain ⟨m, -, e, -, -, -, hposted⟩ := every_event_posted (fun _ => fits_rotation)
    (fun _ => ⟨by decide, fun _ h => (by cases h), hid⟩) (fun _ _ _ => rfl)
    (x := .answered ⟨200, some acceptBody⟩) (by decide) (ofExecWhen hl) (by rw [hzero]; exact .refl)
    (fun H => fairTo_ofExecWhen hl (hend.disabled H)) (n := 0) (i := true) (by rw [hzero]; rfl)
  exact ⟨ofExecWhen hl, by rw [hzero]; rfl, m, hposted⟩

end Gcp
end Ingester
end RelayerCore
