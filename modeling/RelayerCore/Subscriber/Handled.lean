import RelayerCore.Subscriber.Pipeline
import RelayerCore.Subscriber.Progress

/-!
# Every task reaches the application

Once nothing fails any more, the one subscriber that runs publishes every task the API lists,
Pub/Sub delivers it, and the application, which acknowledges whatever it is handed, takes it, unless
it has taken another delivery of it.

* `subscribersOf`: what the subscribers do in an execution is an execution of theirs;
* `taking`: a delivery of a task in the topic is acknowledged, by the application or as a duplicate;
* `every_task_handled`: every task that is listed is taken by the application.
-/

namespace RelayerCore
namespace Subscriber
namespace Pipeline

open Machine
open GcpConsumer (Call)

/-- The call does not fail, and the application acknowledges. -/
def Works : Call → Prop
  | .isProcessed ok | .ackDuplicate ok | .forwardMessage ok | .ack ok => ok = true
  | .setEx reply => reply = .ok
  | .nak _ | .drop => False
  | .deliver | .decode | .receive | .progress _ => True

instance (c : Call) : Decidable (Works c) := by
  unfold Works
  split <;> infer_instance

variable {ι δ : Type}

/-- Only the subscriber `i` runs, and nothing fails. -/
def Smooth (i : ι) (s : State ι δ) : Action ι δ → Prop
  | .subscriber a => Gcp.Smooth i s.subscribers a
  | .consumer (.elapse _) => True
  | .consumer (.call _ c) => Works c
  | .consumer .crash => False

/-- Who has to move next: the subscriber or the topic, or whoever has the delivery. -/
inductive Helper (δ : Type)
  | subscriber (help : Gcp.Help)
  | delivery (d : δ)

def Helper.labels (i : ι) : Helper δ → Set (Action ι δ)
  | .subscriber help => {a | ∃ b ∈ help.labels i, a = .subscriber b}
  | .delivery d => {a | ∃ c, (∀ ok, c ≠ .progress ok) ∧ a = .consumer (.call d c)}

/-- The application has taken some delivery of the task of `d`. -/
def Handled (deliveries : Deliveries δ) (d : δ) (s : State ι δ) : Prop :=
  ∃ d', deliveries.task d' = deliveries.task d ∧ Taken s.consumer.log d'

/-- The subscribers' part is waited for as they wait for it, a delivery until its task has been
taken. -/
def Helper.Due (deliveries : Deliveries δ) (i : ι) : Helper δ → State ι δ → Prop
  | .subscriber help, s => help.Due i s.subscribers
  | .delivery d, s => ¬ Handled deliveries d s

/-- The steps until a delivery is acknowledged. -/
def stage : GcpConsumer.Phase → ℕ
  | .absent => 6
  | .received => 5
  | .checking => 4
  | .forwarding => 3
  | .queued => 2
  | .handed | .duplicate => 1
  | _ => 0

variable [DecidableEq ι] [DecidableEq δ] {chain : String} {limitItems : UInt8} {name : String}
  {deliveries : Deliveries δ} {s s' : State ι δ} {a : Action ι δ} {i : ι} {d : δ}

/-! ### The subscribers' part -/

omit [DecidableEq δ] [DecidableEq ι] in
/-- The step of a subscriber that a step of the whole is. -/
def ofSubscriber : Action ι δ → Option (Gcp.Action ι)
  | .subscriber b => some b
  | .consumer _ => none

/-- What the subscribers do. -/
def subscribersOf (ρ : Execution (when (ofFn (step chain limitItems name deliveries)) (Smooth i))) :
    Execution (when (ofFn (Gcp.step chain limitItems)) (Gcp.Smooth i)) :=
  ρ.project State.subscribers ofSubscriber
    (by
      intro n a ha b hb
      obtain ⟨hok, hs⟩ := ρ.moves n a ha
      cases a with
      | consumer c => cases hb
      | subscriber b' =>
        cases hb
        exact ⟨hok, (subscriber_step hs).2⟩)
    (by
      intro n a ha hb
      obtain ⟨hok, hs⟩ := ρ.moves n a ha
      cases a with
      | subscriber b => cases hb
      | consumer c => exact (consumer_step hs).1)

theorem fair_subscribersOf
    (ρ : Execution (when (ofFn (step chain limitItems name deliveries)) (Smooth i)))
    {help : Gcp.Help}
    (h : ρ.FairWhile ((Helper.subscriber help).Due deliveries i)
      ((Helper.subscriber help).labels i)) :
    (subscribersOf ρ).FairWhile (help.Due i) (help.labels i) := by
  refine h.project (fun _ => id) ?_ ?_
  · rintro n ⟨b, hb, subscribers, hok, hs⟩
    refine ⟨.subscriber b, ⟨b, hb, rfl⟩, { ρ.state n with subscribers }, hok, ?_⟩
    exact Option.map_eq_some_iff.2 ⟨subscribers, hs, rfl⟩
  · rintro a ⟨b, hb, rfl⟩
    exact ⟨b, hb, rfl⟩

/-! ### The consumer's part -/

/-- A call that works takes a delivery on. -/
theorem stage_of_move {m : Bool} {p p' : GcpConsumer.Phase} {c : Call}
    {e : Option GcpConsumer.Event} (hok : Works c) (hp : 0 < stage p)
    (h : GcpConsumer.move true m p c = some (p', e)) :
    (0 < stage p' ∧ stage p' < stage p ∨ e = some .pubsubAcked ∨ e = some .skipped) ∨
      p' = p ∧ ∃ ok, c = .progress ok := by
  unfold GcpConsumer.move at h
  split at h <;> (try split_ifs at h) <;> cases h <;> simp_all [stage, Works]

/-- Whoever has a delivery of a task in the topic can take it on. -/
theorem delivery_enabled (hd : 0 < stage (s.consumer.phase d))
    (htopic : deliveries.task d ∈ s.subscribers.topic) :
    Enabled (when (ofFn (step chain limitItems name deliveries)) (Smooth i))
      ((Helper.delivery d).labels i) s := by
  have hcall : ∀ c : Call, Works c → (∀ ok, c ≠ .progress ok) →
      (GcpConsumer.move ((deliveries.subscription name).decodes d)
        (s.consumer.marked (deliveries.subscription name) d) (s.consumer.phase d) c).isSome →
      Enabled (when (ofFn (step chain limitItems name deliveries)) (Smooth i))
        ((Helper.delivery d).labels i) s := by
    intro c hok hne hmove
    have hs : (step chain limitItems name deliveries s (.consumer (.call d c))).isSome := by
      have hconsume : (s.consume name deliveries (.call d c)).isSome := by
        simpa [State.consume, GcpConsumer.step] using hmove
      cases c with
      | deliver => simpa only [step, if_pos htopic] using hconsume
      | decode | isProcessed | ackDuplicate | forwardMessage | receive | ack | setEx | nak
      | progress | drop => exact hconsume
    obtain ⟨s', hs⟩ := Option.isSome_iff_exists.1 hs
    exact ⟨_, ⟨c, hne, rfl⟩, s', hok, hs⟩
  cases hphase : s.consumer.phase d with
  | absent => exact hcall .deliver trivial (by simp) (by rw [hphase]; rfl)
  | received =>
    refine hcall .decode trivial (by simp) ?_
    rw [hphase]
    cases (deliveries.subscription name).decodes d <;> rfl
  | checking =>
    refine hcall (.isProcessed true) rfl (by simp) ?_
    rw [hphase]
    cases s.consumer.marked (deliveries.subscription name) d <;> rfl
  | duplicate => exact hcall (.ackDuplicate true) rfl (by simp) (by rw [hphase]; rfl)
  | forwarding => exact hcall (.forwardMessage true) rfl (by simp) (by rw [hphase]; rfl)
  | queued => exact hcall .receive trivial (by simp) (by rw [hphase]; rfl)
  | handed => exact hcall (.ack true) rfl (by simp) (by rw [hphase]; rfl)
  | failing | marking | acked | skipped | failed | gone =>
    rw [hphase] at hd
    cases hd

/-- A delivery that decodes is acknowledged, or it stands where it stood or further on. -/
theorem stage_of_step (hdec : (deliveries.subscription name).decodes d = true)
    (hd : 0 < stage (s.consumer.phase d)) (hok : Smooth i s a)
    (hs : step chain limitItems name deliveries s a = some s') :
    Settled s'.consumer.log d ∨ 0 < stage (s'.consumer.phase d) ∧
      (stage (s'.consumer.phase d) < stage (s.consumer.phase d) ∨
        stage (s'.consumer.phase d) = stage (s.consumer.phase d) ∧
          a ∉ (Helper.delivery d).labels i) := by
  have hsame : s'.consumer.phase d = s.consumer.phase d → a ∉ (Helper.delivery d).labels i →
      0 < stage (s'.consumer.phase d) ∧
        (stage (s'.consumer.phase d) < stage (s.consumer.phase d) ∨
          stage (s'.consumer.phase d) = stage (s.consumer.phase d) ∧
            a ∉ (Helper.delivery d).labels i) := by
    intro heq hne
    rw [heq]
    exact ⟨hd, Or.inr ⟨rfl, hne⟩⟩
  cases a with
  | subscriber b =>
    refine Or.inr (hsame (by rw [(subscriber_step hs).1]) ?_)
    rintro ⟨c, -, hc⟩
    cases hc
  | consumer b =>
    obtain ⟨-, hconsumer, -⟩ := consumer_step hs
    cases b with
    | elapse secs =>
      have hphase : s'.consumer.phase d = s.consumer.phase d := by
        rw [← Option.some.inj hconsumer]
      refine Or.inr (hsame hphase ?_)
      rintro ⟨c, -, hc⟩
      cases hc
    | crash => exact hok.elim
    | call d' c =>
      obtain ⟨⟨p, e⟩, hmove, hadvance⟩ := Option.map_eq_some_iff.1 hconsumer
      by_cases hdd : d' = d
      · subst hdd
        have hphase : s'.consumer.phase d' = p := by
          rw [← hadvance]
          exact GcpConsumer.advance_phase_self
        rw [hdec] at hmove
        have hlog : ∀ v, e = some v → ⟨d', v, s.consumer.now⟩ ∈ s'.consumer.log := by
          intro v hv
          rw [← hadvance]
          exact GcpConsumer.mem_advance_of_event hv
        rcases stage_of_move hok hd hmove with (⟨hpos, hlt⟩ | hacked | hskipped) | ⟨rfl, ok, rfl⟩
        · exact Or.inr (hphase ▸ ⟨hpos, Or.inl hlt⟩)
        · exact Or.inl ⟨_, hlog _ hacked, rfl, Or.inl rfl⟩
        · exact Or.inl ⟨_, hlog _ hskipped, rfl, Or.inr rfl⟩
        · refine Or.inr (hsame hphase ?_)
          rintro ⟨c, hc, hcall⟩
          cases hcall
          exact hc ok rfl
      · refine Or.inr (hsame ?_ ?_)
        · rw [← hadvance]
          exact GcpConsumer.advance_phase_of_ne (Ne.symm hdd)
        · rintro ⟨c', -, hc'⟩
          cases hc'
          exact hdd rfl

/-- The topic and what was observed of the deliveries only grow. -/
theorem grows_of_step (h : Inv name deliveries s)
    (hs : step chain limitItems name deliveries s a = some s') :
    s.subscribers.topic ⊆ s'.subscribers.topic ∧ s.consumer.log ⊆ s'.consumer.log := by
  rcases step_cases hs with ⟨hconsumer, b, hb⟩ | ⟨hsub, b, hb, -⟩
  · rw [hconsumer]
    exact ⟨(subscriber_frame h.pending hb).2.2.1, List.Subset.refl _⟩
  · rw [hsub]
    refine ⟨List.Subset.refl _, ?_⟩
    rcases GcpConsumer.step_cases hb with ⟨secs, hc⟩ | hc | ⟨d, c, p, e, rfl, hmove, hc⟩ <;> rw [hc]
    · exact List.Subset.refl _
    · exact List.Subset.refl _
    · exact GcpConsumer.log_subset_advance

omit [DecidableEq δ] in
theorem Settled.mono {log log' : List (GcpConsumer.Entry δ)} (h : Settled log d)
    (hsub : log ⊆ log') : Settled log' d := by
  obtain ⟨e, he, hd⟩ := h
  exact ⟨e, hsub he, hd⟩

/-- A delivery of a task in the topic is acknowledged, if no other one is taken before. -/
theorem taking (hdec : (deliveries.subscription name).decodes d = true) :
    Ranking (when (ofFn (step chain limitItems name deliveries)) (Smooth i))
      (Helper.labels i)
      (fun s => Inv name deliveries s ∧ 0 < stage (s.consumer.phase d) ∧
        deliveries.task d ∈ s.subscribers.topic)
      (fun s => Settled s.consumer.log d ∨ Handled deliveries d s)
      (fun s => stage (s.consumer.phase d)) (fun _ => .delivery d) where
  enabled _ h _ := delivery_enabled h.2.1 h.2.2
  step s a s' h _ hs := by
    obtain ⟨hinv, hd, htopic⟩ := h
    obtain ⟨hok, hs⟩ := hs
    rcases stage_of_step hdec hd hok hs with hgoal | ⟨hpos, hcloser⟩
    · exact Or.inl (Or.inl hgoal)
    · refine Or.inr ⟨⟨inv_step hinv hs, hpos, (grows_of_step hinv hs).1 htopic⟩, ?_⟩
      exact hcloser.imp id fun ⟨heq, hne⟩ => ⟨heq, rfl, hne⟩

/-! ### Every task is taken -/

theorem ready_of_reach {ackDeadlineSecs : ℤ}
    (h : Reach (ofFn (step chain limitItems name deliveries)) (init ι δ ackDeadlineSecs) s) :
    Gcp.Ready s.subscribers := by
  have hstart : Reach (ofFn (Gcp.step chain limitItems)) (Gcp.init ι) (Gcp.init ι) := .refl
  refine h.invariant (p := fun s => Gcp.Ready s.subscribers) (Gcp.ready_of_reach hstart)
    fun s a s' hready hs => ?_
  rcases step_cases hs with ⟨-, b, hb⟩ | ⟨hsub, -⟩
  · exact Gcp.ready_step hready hb
  · rw [hsub]
    exact hready

/-- **Every task the API lists is taken by the application.**  Whatever has failed or crashed
before, once nothing fails any more, one subscriber runs and the application acknowledges what it is
handed, a task of which a delivery is still to come is handed to the application and acknowledged by
it some time, in an execution that is fair to the subscriber, to the topic while the subscriber
waits for it to accept a message, and to the deliveries of a task as long as none is taken. -/
theorem every_task_handled {ackDeadlineSecs : ℤ} (hlimit : 0 < limitItems)
    (hfits : ∀ d, TaskItem.borsh.Fits (deliveries.task d))
    (hlength : ∀ d, (deliveries.context d).length + 1 < 2 ^ 32)
    (hheaders : ∀ d, ∀ header ∈ deliveries.context d,
      Borsh.string.Fits header.1 ∧ Borsh.string.Fits header.2)
    (ρ : Execution (when (ofFn (step chain limitItems name deliveries)) (Smooth i)))
    (h0 : Reach (ofFn (step chain limitItems name deliveries)) (init ι δ ackDeadlineSecs)
      (ρ.state 0)) (hfair : ∀ H : Helper δ, ρ.FairWhile (H.Due deliveries i) (H.labels i))
    {n : ℕ} (ht : deliveries.task d ∈ (ρ.state n).subscribers.api.entries)
    (hd : (ρ.state n).consumer.phase d = .absent) : ∃ m ≥ n, Handled deliveries d (ρ.state m) := by
  have hreach : ∀ n, Reach (ofFn (step chain limitItems name deliveries))
      (init ι δ ackDeadlineSecs) (ρ.state n) := fun n => h0.trans (ρ.reach n).of_when
  have hinv : ∀ n, Inv name deliveries (ρ.state n) := fun n => inv_of_reach (hreach n)
  have hdec : (deliveries.subscription name).decodes d = true := by
    rw [GcpConsumer.Subscription.decodes]
    rw [show (deliveries.subscription name).decoded d = _ from
      (Queue.readBack TaskItem.borsh (hfits d)).gcp (deliveries.context d) _ name
        ⟨hlength d, hheaders d, fits_deduplicationId _⟩]
    rfl
  obtain ⟨m, hm, htopic⟩ := Gcp.published hlimit (subscribersOf ρ)
    (fun help => fair_subscribersOf ρ (hfair (.subscriber help))) (ready_of_reach (hreach n)) ht
  -- the delivery may have been made in the meantime
  have hmeantime : Inv name deliveries (ρ.state m) ∧ (Settled (ρ.state m).consumer.log d ∨
      0 < stage ((ρ.state m).consumer.phase d)) := by
    refine ρ.stays (p := fun s => Inv name deliveries s ∧ (Settled s.consumer.log d ∨
      0 < stage (s.consumer.phase d))) ?_ hm ⟨hinv n, Or.inr (by rw [hd]; decide)⟩
    rintro s a s' ⟨hinv, hgone | hpos⟩ ⟨hok, hs⟩
    · exact ⟨inv_step hinv hs, Or.inl (hgone.mono (grows_of_step hinv hs).2)⟩
    · exact ⟨inv_step hinv hs, (stage_of_step hdec hpos hok hs).imp id And.left⟩
  rcases hmeantime.2 with hgone | hpos
  · exact ⟨m, hm, exists_taken (hinv m) hgone⟩
  · obtain ⟨m', hm', hgone | hhandled⟩ := (taking hdec).leadsTo_while ρ
      (fun _ _ hno hhandled => hno (Or.inr hhandled)) hfair ⟨hinv m, hpos, htopic⟩
    · exact ⟨m', by omega, exists_taken (hinv m') hgone⟩
    · exact ⟨m', by omega, hhandled⟩

/-! ### A task that is delivered twice -/

instance (i : ι) (s : State ι δ) (a : Action ι δ) : Decidable (Smooth i s a) := by
  unfold Smooth
  split <;> infer_instance

theorem exec_subscriber {as : List (Gcp.Action ι)} {subscribers : Gcp.State ι}
    (h : exec (guarded (Gcp.step chain limitItems) (Gcp.Smooth i)) s.subscribers as =
      some subscribers) :
    exec (guarded (step chain limitItems name deliveries) (Smooth i)) s
      (as.map .subscriber) = some { s with subscribers } := by
  induction as generalizing s with
  | nil =>
    cases h
    rfl
  | cons b as ih =>
    obtain ⟨next, hnext, h⟩ := Option.bind_eq_some_iff.1 h
    obtain ⟨hok, hs⟩ := guarded_eq_some.1 hnext
    have hstep : guarded (step chain limitItems name deliveries) (Smooth i) s (.subscriber b) =
        some { s with subscribers := next } :=
      guarded_eq_some.2 ⟨hok, Option.map_eq_some_iff.2 ⟨next, hs, rfl⟩⟩
    rw [List.map_cons, exec, hstep]
    exact ih h

/-- The task is saved, taken by the application and dropped as a duplicate. -/
structure Over (s : State Bool Bool) : Prop where
  saved : Gcp.Saved s.subscribers
  first : s.consumer.phase false = .acked
  second : s.consumer.phase true = .skipped

theorem over_fetchesNothing {s : State Bool Bool} (h : Over s) :
    ∃ s', exec (guarded (step "solana" 10 "tasks" gatewayTransactions) (Smooth false)) s
      (Gcp.fetchesNothing.map .subscriber) = some s' ∧ Over s' := by
  obtain ⟨subscribers, hexec, hsaved⟩ := Gcp.saved_fetchesNothing h.saved
  exact ⟨_, exec_subscriber hexec, hsaved, h.first, h.second⟩

def fetchesForEver {s : State Bool Bool} (h : Over s) :
    Execution (when (ofFn (step "solana" 10 "tasks" gatewayTransactions)) (Smooth false)) :=
  ofCycleWhen (fun _ => over_fetchesNothing) (by decide) h

theorem fair_fetchesForEver {s : State Bool Bool} (h : Over s) (H : Helper Bool) :
    (fetchesForEver h).FairWhile (H.Due gatewayTransactions false) (H.labels false) := by
  refine fairWhile_ofCycleWhen _ _ h ?_
  cases H with
  | subscriber help =>
    rcases Gcp.fetchesNothing_or_disabled help with ⟨b, hb, hlabel⟩ | hdisabled
    · exact Or.inl ⟨.subscriber b, List.mem_map_of_mem hb, b, hlabel, rfl⟩
    · refine Or.inr ?_
      rintro s hs hdue a ⟨b, hb, rfl⟩
      exact Option.map_eq_none_iff.2 (hdisabled _ hs.saved hdue b hb)
  | delivery d =>
    refine Or.inr ?_
    rintro s hs - a ⟨c, -, rfl⟩
    by_contra hno
    obtain ⟨s', hs'⟩ := Option.ne_none_iff_exists'.1 hno
    obtain ⟨-, hconsumer, -⟩ := consumer_step hs'
    obtain ⟨⟨p, e⟩, hmove, -⟩ := Option.map_eq_some_iff.1 hconsumer
    cases d <;> simp [hs.first, hs.second, GcpConsumer.move] at hmove

/-- One subscriber publishes the task, the application takes the first delivery of it, and the
second one is a duplicate. -/
def handledOnce : List (Action Bool Bool) :=
  Gcp.publishes.map .subscriber ++
  [.call false .deliver, .call false .decode, .call false (.isProcessed true),
    .call false (.forwardMessage true), .call false .receive, .call false (.ack true),
    .call false (.setEx .ok), .call true .deliver, .call true .decode,
    .call true (.isProcessed true), .call true (.ackDuplicate true)].map .consumer

/-- The theorem on that run. -/
theorem every_task_handled_once :
    ∃ ρ : Execution (when (ofFn (step "solana" 10 "tasks" gatewayTransactions)) (Smooth false)),
      (ρ.state 0).consumer.log = [] ∧ ∃ m d, Taken (ρ.state m).consumer.log d := by
  obtain ⟨s, hs, hp⟩ := exists_reach_of_exec (step "solana" 10 "tasks" gatewayTransactions)
    (init Bool Bool 30) (Gcp.listed.map .subscriber)
    (fun s => s.consumer.log == [] && s.subscribers.api.entries == [Gcp.onlyTask] &&
      decide (s.consumer.phase true = .absent) &&
      (exec (guarded (step "solana" 10 "tasks" gatewayTransactions) (Smooth false)) s
        handledOnce).any fun s' : State Bool Bool =>
          (s'.subscribers.phase false).isIdle &&
            s'.subscribers.lastMessageId == some Gcp.onlyTask.id &&
            s'.subscribers.api.entries == [Gcp.onlyTask] &&
            decide (s'.consumer.phase false = .acked) &&
            decide (s'.consumer.phase true = .skipped)) (by decide +kernel)
  simp only [Bool.and_eq_true, beq_iff_eq, decide_eq_true_eq, Option.any_eq_true,
    Gcp.Phase.isIdle_iff] at hp
  obtain ⟨⟨⟨hlog, hapi⟩, habsent⟩, s', hs',
    ⟨⟨⟨hidle, hsaved⟩, hapi'⟩, hfirst⟩, hsecond⟩ := hp
  have hend : Over s' := ⟨⟨hidle, hsaved, hapi'⟩, hfirst, hsecond⟩
  have hreach : Reach (when (ofFn (step "solana" 10 "tasks" gatewayTransactions)) (Smooth false)) s
      ((fetchesForEver hend).state 0) := by
    rw [fetchesForEver, ofCycleWhen_zero]
    exact (reach_of_exec hs').mono fun _ _ _ => guarded_eq_some.1
  obtain ⟨ρ, h0, hfair⟩ := (fetchesForEver hend).exists_of_reach hreach
  obtain ⟨m, -, d, -, htaken⟩ := every_task_handled (d := true) (n := 0) (by decide)
    fits_gatewayTransaction (by decide) (fun _ _ h => (by cases h)) ρ (h0 ▸ hs)
    (fun H => hfair _ _ (fair_fetchesForEver hend H))
    (by rw [h0, hapi]; exact List.mem_singleton.2 rfl) (by rw [h0, habsent])
  exact ⟨ρ, by rw [h0, hlog], m, d, htaken⟩

end Pipeline
end Subscriber
end RelayerCore
