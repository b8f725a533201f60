import RelayerCore.Ingester.Gcp
import RelayerCore.Lib.Keyed

/-!
# The channel of the ingester, in order (`infrastructure/src/gcp/consumer.rs`)

The channel between the receive callbacks and `ingest` is first in, first out.  `Line` is the
ingester with this order: its runs are runs of the ingester (`reach_ingester`).

* `Ordered`: the channel holds the queued deliveries and the errors, and every message in flight
  stands where its delivery does.
-/

namespace RelayerCore
namespace Ingester
namespace Gcp

open Machine
open GcpConsumer (Subscription Call Reply Phase)

/-- The ingester and what was sent into its channel, in order; an error is `none`. -/
structure Line (ι : Type) where
  ingester : State ι
  channel : List (Option ι)

namespace Line

variable {ι : Type} [DecidableEq ι]

def init (ι : Type) (ackDeadlineSecs : ℤ) : Line ι :=
  { ingester := Gcp.init ι ackDeadlineSecs, channel := [] }

/-- What a step leaves in the channel. -/
def nextChannel (l : Line ι) : Action ι → Option (List (Option ι))
  | .callback i (.forwardMessage true) =>
    some (l.channel ++ [if l.ingester.consumer.phase i = .failing then none else some i])
  | .receive i => if l.channel.head? = some (some i) then some l.channel.tail else none
  | .receiveErr => if l.channel.head? = some none then some l.channel.tail else none
  | .crash => some []
  | _ => some l.channel

section Step

variable (fromSlice : List UInt8 → Option PublishEventsResult)
  (fromSliceError : List UInt8 → Option ErrorResponse) (sub : Subscription ι Event)
  (chain : String) (concurrentQueueItems : ℕ)

def step (l : Line ι) (a : Action ι) : Option (Line ι) :=
  (l.nextChannel a).bind fun channel =>
    (Gcp.step fromSlice fromSliceError sub chain concurrentQueueItems l.ingester a).map
      fun ingester => { ingester, channel }

end Step

variable {fromSlice : List UInt8 → Option PublishEventsResult}
  {fromSliceError : List UInt8 → Option ErrorResponse} {sub : Subscription ι Event}
  {chain : String} {concurrentQueueItems : ℕ} {l l' : Line ι} {a : Action ι}

theorem step_eq_some :
    step fromSlice fromSliceError sub chain concurrentQueueItems l a = some l' ↔
      l.nextChannel a = some l'.channel ∧
        Gcp.step fromSlice fromSliceError sub chain concurrentQueueItems l.ingester a =
          some l'.ingester := by
  unfold step
  constructor
  · intro h
    obtain ⟨channel, hchannel, h⟩ := Option.bind_eq_some_iff.1 h
    obtain ⟨ingester, hingester, rfl⟩ := Option.map_eq_some_iff.1 h
    exact ⟨hchannel, hingester⟩
  · rintro ⟨hchannel, hingester⟩
    rw [hchannel, Option.bind_some, hingester]
    rfl

/-- The order only takes runs away. -/
theorem reach_ingester {ackDeadlineSecs : ℤ}
    (h : Reach (ofFn (step fromSlice fromSliceError sub chain concurrentQueueItems))
      (init ι ackDeadlineSecs) l) :
    Reach (ofFn (Gcp.step fromSlice fromSliceError sub chain concurrentQueueItems))
      (Gcp.init ι ackDeadlineSecs) l.ingester := by
  induction h with
  | refl => exact .refl
  | tail _ hs ih => exact .tail ih (step_eq_some.1 hs).2

end Line

/-! ### The channel and the messages in flight -/

section Ordered

variable {ι : Type} [DecidableEq ι] {fromSlice : List UInt8 → Option PublishEventsResult}
  {fromSliceError : List UInt8 → Option ErrorResponse} {sub : Subscription ι Event}
  {chain : String} {concurrentQueueItems : ℕ} {l l' : Line ι} {a : Action ι}

/-- Where the delivery of a message in flight stands. -/
def Work.Fits (fromSlice : List UInt8 → Option PublishEventsResult)
    (fromSliceError : List UInt8 → Option ErrorResponse) : Work → Phase → Prop
  | .posting, p => p = .handed
  | .acking x, p => p = .handed ∨ p = .marking ∧ (resultsOf fromSlice fromSliceError x).isSome
  | .done, p => p = .handed ∨ p = .acked

/-- The channel holds the queued deliveries and the errors, and every message in flight stands
where its delivery does. -/
structure Ordered (fromSlice : List UInt8 → Option PublishEventsResult)
    (fromSliceError : List UInt8 → Option ErrorResponse) (l : Line ι) : Prop where
  queued : ∀ i, l.channel.count (some i) = if l.ingester.consumer.phase i = .queued then 1 else 0
  errs : l.channel.count none = l.ingester.channelErrs
  single : (l.ingester.inFlight.map Job.delivery).Nodup
  fits : ∀ job ∈ l.ingester.inFlight,
    job.work.Fits fromSlice fromSliceError (l.ingester.consumer.phase job.delivery)

/-- A delivery that is neither in the callback's hands nor in the channel. -/
def handedOn : Phase → Bool
  | .handed | .marking | .acked => true
  | _ => false

theorem Work.Fits.handedOn {work : Work} {p : Phase} (h : work.Fits fromSlice fromSliceError p) :
    handedOn p = true := by
  cases work with
  | posting => rw [show p = .handed from h]; rfl
  | acking x => rcases h with rfl | ⟨rfl, -⟩ <;> rfl
  | done => rcases h with rfl | rfl <;> rfl

theorem ne_queued_of_handedOn {p : Phase} (h : handedOn p = true) : p ≠ .queued := by
  rintro rfl
  cases h

/-- What a call of the receive callback does to the phase. -/
theorem move_callback {d m : Bool} {p p' : Phase} {c : Call} {e : Option GcpConsumer.Event}
    (hc : ofCallback c = true) (h : GcpConsumer.move d m p c = some (p', e)) :
    handedOn p = false ∧ p ≠ .queued ∧
      (p' = .queued ↔ p ≠ .failing ∧ c = .forwardMessage true) := by
  unfold GcpConsumer.move at h
  split at h <;> (try split_ifs at h) <;> cases h <;> simp_all [ofCallback, handedOn]

section Move

variable {d m : Bool} {p p' : Phase} {e : Option GcpConsumer.Event}

theorem move_receive (h : GcpConsumer.move d m p .receive = some (p', e)) :
    p = .queued ∧ p' = .handed := by
  cases p <;> simp_all [GcpConsumer.move]

theorem move_ack {ok : Bool} (h : GcpConsumer.move d m p (.ack ok) = some (p', e)) :
    p = .handed ∧ p' = if ok then .marking else .handed := by
  cases p <;> cases ok <;> simp_all [GcpConsumer.move]

theorem move_nak {ok : Bool} (h : GcpConsumer.move d m p (.nak ok) = some (p', e)) :
    p = .handed ∧ p' = .handed := by
  cases p <;> simp_all [GcpConsumer.move]

theorem move_setEx {reply : Reply} (h : GcpConsumer.move d m p (.setEx reply) = some (p', e)) :
    p = .marking ∧ (p' = .handed ∨ p' = .acked) := by
  cases p <;> cases reply <;> simp_all [GcpConsumer.move]

theorem move_drop (h : GcpConsumer.move d m p .drop = some (p', e)) : p = .handed ∧ p' = .gone := by
  cases p <;> simp_all [GcpConsumer.move]

end Move

/-- A call moves its own delivery only. -/
theorem phase_of_call {c c' : GcpConsumer.State ι} {i : ι} {call : Call}
    (h : GcpConsumer.step sub c (.call i call) = some c') :
    (∃ e, GcpConsumer.move (sub.decodes i) (c.marked sub i) (c.phase i) call =
      some (c'.phase i, e)) ∧ ∀ j ≠ i, c'.phase j = c.phase j := by
  obtain ⟨⟨p, e⟩, hmove, rfl⟩ := Option.map_eq_some_iff.1 h
  exact ⟨⟨e, by rw [GcpConsumer.advance_phase_self]; exact hmove⟩,
    fun j hj => GcpConsumer.advance_phase_of_ne hj⟩

theorem ordered_init (ackDeadlineSecs : ℤ) :
    Ordered fromSlice fromSliceError (Line.init ι ackDeadlineSecs) where
  queued _ := rfl
  errs := rfl
  single := List.nodup_nil
  fits _ h := by cases h

/-- The receive callback does not touch the messages in flight. -/
theorem Ordered.ne_of_callback (h : Ordered fromSlice fromSliceError l) {job : Job ι}
    (hjob : job ∈ l.ingester.inFlight) {i : ι} {c : Call} {consumer : GcpConsumer.State ι}
    (hc : ofCallback c = true)
    (hconsumer : GcpConsumer.step sub l.ingester.consumer (.call i c) = some consumer) :
    job.delivery ≠ i := by
  rintro rfl
  obtain ⟨⟨e, hmove⟩, -⟩ := phase_of_call hconsumer
  have hin := (h.fits job hjob).handedOn
  rw [(move_callback hc hmove).1] at hin
  cases hin

/-- What is received was not in flight. -/
theorem Ordered.ne_of_receive (h : Ordered fromSlice fromSliceError l) {job : Job ι}
    (hjob : job ∈ l.ingester.inFlight) {i : ι} {consumer : GcpConsumer.State ι}
    (hconsumer : GcpConsumer.step sub l.ingester.consumer (.call i .receive) = some consumer) :
    job.delivery ≠ i := by
  rintro rfl
  obtain ⟨⟨e, hmove⟩, -⟩ := phase_of_call hconsumer
  exact ne_queued_of_handedOn (h.fits job hjob).handedOn (move_receive hmove).1

/-- A message in flight moves on. -/
theorem Ordered.job (h : Ordered fromSlice fromSliceError l) {s' : State ι} {n : ℕ}
    {job : Job ι} (job' : Job ι) (hn : l.ingester.inFlight[n]? = some job)
    (hd : job'.delivery = job.delivery)
    (hphase : ∀ j ≠ job.delivery, s'.consumer.phase j = l.ingester.consumer.phase j)
    (hfits : job'.work.Fits fromSlice fromSliceError (s'.consumer.phase job.delivery))
    (herrs : s'.channelErrs = l.ingester.channelErrs)
    (hin : s'.inFlight = l.ingester.inFlight.set n job') :
    Ordered fromSlice fromSliceError { ingester := s', channel := l.channel } where
  queued j := by
    have hold := (h.fits job (List.mem_of_getElem? hn)).handedOn
    have hnew := hfits.handedOn
    rw [h.queued]
    by_cases hj : j = job.delivery
    · subst hj
      rw [if_neg (ne_queued_of_handedOn hold), if_neg (ne_queued_of_handedOn hnew)]
    · rw [hphase j hj]
  errs := by rw [herrs, h.errs]
  single := by
    rw [hin, Keyed.map_set hn hd]
    exact h.single
  fits other hother := by
    rw [hin] at hother
    rcases Keyed.mem_set_cases h.single hn hother with rfl | ⟨hmem, hne⟩
    · rwa [hd]
    · rw [hphase _ hne]
      exact h.fits other hmem

/-- A message is done with. -/
theorem Ordered.erase (h : Ordered fromSlice fromSliceError l) {s' : State ι} {n : ℕ} {job : Job ι}
    (hn : l.ingester.inFlight[n]? = some job)
    (hphase : ∀ j ≠ job.delivery, s'.consumer.phase j = l.ingester.consumer.phase j)
    (hqueued : s'.consumer.phase job.delivery ≠ .queued)
    (herrs : s'.channelErrs = l.ingester.channelErrs)
    (hin : s'.inFlight = l.ingester.inFlight.eraseIdx n) :
    Ordered fromSlice fromSliceError { ingester := s', channel := l.channel } where
  queued j := by
    have hold := (h.fits job (List.mem_of_getElem? hn)).handedOn
    rw [h.queued]
    by_cases hj : j = job.delivery
    · subst hj
      rw [if_neg hqueued, if_neg (ne_queued_of_handedOn hold)]
    · rw [hphase j hj]
  errs := by rw [herrs, h.errs]
  single := by
    rw [hin, ← List.eraseIdx_map]
    exact h.single.sublist (List.eraseIdx_sublist _ _)
  fits other hother := by
    rw [hin] at hother
    obtain ⟨m, hmn, hm⟩ := List.mem_eraseIdx_iff_getElem?.1 hother
    rw [hphase _ (Keyed.ne_of_getElem? h.single hn hm hmn)]
    exact h.fits other (List.mem_of_getElem? hm)

theorem nextChannel_callback {i : ι} {c : Call} {channel : List (Option ι)}
    (h : l.nextChannel (.callback i c) = some channel) :
    c = .forwardMessage true ∧ channel = l.channel ++
        [if l.ingester.consumer.phase i = .failing then none else some i] ∨
      c ≠ .forwardMessage true ∧ channel = l.channel := by
  unfold Line.nextChannel at h
  split at h <;> simp_all

theorem nextChannel_receive {i : ι} {channel : List (Option ι)}
    (h : l.nextChannel (.receive i) = some channel) : l.channel = some i :: channel := by
  obtain ⟨hhead, hchannel⟩ := Option.ite_none_right_eq_some.1 h
  rw [← Option.some.inj hchannel]
  exact List.eq_cons_of_mem_head? hhead

theorem nextChannel_receiveErr {channel : List (Option ι)}
    (h : l.nextChannel .receiveErr = some channel) : l.channel = none :: channel := by
  obtain ⟨hhead, hchannel⟩ := Option.ite_none_right_eq_some.1 h
  rw [← Option.some.inj hchannel]
  exact List.eq_cons_of_mem_head? hhead

/-- A receive callback goes on: what it forwards is the last in the channel. -/
theorem Ordered.callback (h : Ordered fromSlice fromSliceError l) {i : ι} {c : Call}
    {consumer : GcpConsumer.State ι} (hc : ofCallback c = true)
    (hconsumer : GcpConsumer.step sub l.ingester.consumer (.call i c) = some consumer)
    {channel : List (Option ι)} (hchannel : l.nextChannel (.callback i c) = some channel) :
    Ordered fromSlice fromSliceError
      { ingester := { l.ingester with
          consumer
          channelErrs := if l.ingester.consumer.phase i = .failing ∧ c = .forwardMessage true
            then l.ingester.channelErrs + 1 else l.ingester.channelErrs }
        channel } := by
  obtain ⟨⟨e, hmove⟩, hother⟩ := phase_of_call hconsumer
  obtain ⟨-, hqueued, hforward⟩ := move_callback hc hmove
  refine ⟨fun j => ?_, ?_, h.single, fun job hjob => ?_⟩
  · show channel.count (some j) = if consumer.phase j = .queued then 1 else 0
    have hj := h.queued j
    by_cases hji : j = i
    · subst hji
      rw [if_neg hqueued] at hj
      rcases nextChannel_callback hchannel with ⟨rfl, rfl⟩ | ⟨hf, rfl⟩
      · by_cases hfail : l.ingester.consumer.phase j = .failing <;> simp [hj, hforward, hfail]
      · simp [hj, hforward, hf]
    · rw [hother j hji]
      rcases nextChannel_callback hchannel with ⟨rfl, rfl⟩ | ⟨hf, rfl⟩
      · by_cases hfail : l.ingester.consumer.phase i = .failing <;> simp [hj, hfail, Ne.symm hji]
      · exact hj
  · show channel.count none = _
    rcases nextChannel_callback hchannel with ⟨rfl, rfl⟩ | ⟨hf, rfl⟩
    · by_cases hfail : l.ingester.consumer.phase i = .failing <;> simp [h.errs, hfail]
    · simp [h.errs, hf]
  · show job.work.Fits fromSlice fromSliceError (consumer.phase job.delivery)
    rw [hother _ (h.ne_of_callback hjob hc hconsumer)]
    exact h.fits job hjob

/-- `ingest` takes the first message of the channel. -/
theorem Ordered.receive (h : Ordered fromSlice fromSliceError l) {i : ι} {event : Event}
    {consumer : GcpConsumer.State ι}
    (hconsumer : GcpConsumer.step sub l.ingester.consumer (.call i .receive) = some consumer)
    {rest : List (Option ι)} (hchannel : l.channel = some i :: rest) :
    Ordered fromSlice fromSliceError
      { ingester := { l.ingester with
          consumer, inFlight := l.ingester.inFlight ++ [⟨i, event, .posting⟩] }
        channel := rest } := by
  obtain ⟨⟨e, hmove⟩, hother⟩ := phase_of_call hconsumer
  have hqueued := move_receive hmove
  have hnew : ∀ job ∈ l.ingester.inFlight, job.delivery ≠ i :=
    fun _ hjob => h.ne_of_receive hjob hconsumer
  refine ⟨fun j => ?_, ?_, ?_, fun job hjob => ?_⟩
  · show rest.count (some j) = if consumer.phase j = .queued then 1 else 0
    have hj := h.queued j
    rw [hchannel, List.count_cons] at hj
    by_cases hji : j = i
    · subst hji
      simpa [hqueued.1, hqueued.2] using hj
    · rw [hother j hji]
      simpa [Ne.symm hji] using hj
  · have herrs := h.errs
    rw [hchannel, List.count_cons] at herrs
    simpa using herrs
  · show ((l.ingester.inFlight ++ _).map Job.delivery).Nodup
    rw [List.map_append]
    refine h.single.append (List.nodup_singleton _) ?_
    intro j hj hji
    obtain ⟨job, hjob, rfl⟩ := List.mem_map.1 hj
    exact hnew job hjob (by simpa using hji)
  · show job.work.Fits fromSlice fromSliceError (consumer.phase job.delivery)
    rcases List.mem_append.1 hjob with hjob | hjob
    · rw [hother _ (hnew job hjob)]
      exact h.fits job hjob
    · cases List.mem_singleton.1 hjob
      exact hqueued.2

theorem ordered_step (h : Ordered fromSlice fromSliceError l)
    (hs : Line.step fromSlice fromSliceError sub chain concurrentQueueItems l a = some l') :
    Ordered fromSlice fromSliceError l' := by
  obtain ⟨s', channel⟩ := l'
  obtain ⟨hchannel, hstep⟩ := Line.step_eq_some.1 hs
  cases acts_of_step hstep with
  | elapse secs consumer hconsumer =>
    cases hchannel
    cases hconsumer
    exact ⟨h.queued, h.errs, h.single, h.fits⟩
  | crash consumer hconsumer =>
    cases hchannel
    cases hconsumer
    refine ⟨fun j => ?_, rfl, List.nodup_nil, fun _ hjob => by cases hjob⟩
    have hne : (l.ingester.consumer.phase j).crash ≠ .queued := by
      cases l.ingester.consumer.phase j <;> simp [Phase.crash]
    show 0 = if (l.ingester.consumer.phase j).crash = .queued then 1 else 0
    rw [if_neg hne]
  | callback i c consumer hc hconsumer => exact h.callback hc hconsumer hchannel
  | receive i m consumer hdec hroom hconsumer =>
    exact h.receive hconsumer (nextChannel_receive hchannel)
  | receiveErr hroom herrs =>
    have hrest := nextChannel_receiveErr hchannel
    have hcount := h.errs
    rw [hrest, List.count_cons_self] at hcount
    refine ⟨fun j => ?_, by simp [← hcount], h.single, h.fits⟩
    have hj := h.queued j
    rw [hrest, List.count_cons] at hj
    simpa using hj
  | exchange n i event x hn =>
    cases hchannel
    have hfit := h.fits _ (List.mem_of_getElem? hn)
    exact h.job ⟨i, event, .acking x⟩ hn rfl (fun _ _ => rfl) (Or.inl hfit) rfl rfl
  | acked n i event x consumer hn hresults hconsumer =>
    cases hchannel
    obtain ⟨⟨e, hmove⟩, hother⟩ := phase_of_call hconsumer
    exact h.job _ hn rfl hother (Or.inr ⟨(move_ack hmove).2, hresults⟩) rfl
      (Keyed.set_of_getElem? hn).symm
  | ackFails n i event x consumer hn hconsumer =>
    cases hchannel
    obtain ⟨⟨e, hmove⟩, hother⟩ := phase_of_call hconsumer
    exact h.job ⟨i, event, .done⟩ hn rfl hother (Or.inl (move_ack hmove).2) rfl rfl
  | nak n ok i event x consumer hn hresults hconsumer =>
    cases hchannel
    obtain ⟨⟨e, hmove⟩, hother⟩ := phase_of_call hconsumer
    exact h.job ⟨i, event, .done⟩ hn rfl hother (Or.inl (move_nak hmove).2) rfl rfl
  | setEx n reply i event x consumer hn hconsumer =>
    cases hchannel
    obtain ⟨⟨e, hmove⟩, hother⟩ := phase_of_call hconsumer
    exact h.job ⟨i, event, .done⟩ hn rfl hother (move_setEx hmove).2 rfl rfl
  | drop n i event consumer hn hconsumer =>
    cases hchannel
    have hfit := h.fits _ (List.mem_of_getElem? hn)
    rcases hconsumer with ⟨hp, hconsumer⟩ | ⟨hp, rfl⟩
    · obtain ⟨⟨e, hmove⟩, hother⟩ := phase_of_call hconsumer
      refine h.erase hn hother ?_ rfl rfl
      show consumer.phase i ≠ .queued
      rw [(move_drop hmove).2]
      simp
    · refine h.erase hn (fun _ _ => rfl) ?_ rfl rfl
      rw [(hfit : _ ∨ _).resolve_left hp]
      simp

end Ordered

end Gcp
end Ingester
end RelayerCore
