import RelayerCore.FromAmplifier.Duplicate

/-!
# When the poller gets stuck

`internal` polls only while the two cursors are equal.  Once the channel is drained the processed
cursor is `tail`: the last task in the channel, else the task the consumer took last, else the
cursor itself.  So the poller goes on exactly if, whenever no request is outstanding, the queried
cursor is already `tail`.  Two kinds of steps can break this: the start-up that finds a queried
but no processed task, and the end of the last outstanding request.

* `poller_never_stuck_iff_keepsUp`: the runs in which neither happens;
* `neverStuck_of_steady`: requests that do not overlap and a setter that stores are enough.
-/

namespace RelayerCore
namespace FromAmplifier

open Machine

/-- The task the consumer took last and may still have to record. -/
def Downstream.task : Downstream → Option TaskItem
  | .idle => none
  | .handling task | .recording task | .unrecorded task => some task

/-- What the processed cursor will be when everything sent so far is recorded. -/
def State.tail (s : State) : Option TaskItemId :=
  match s.channel.getLast?, s.downstream.task with
  | some task, _ => some task.id
  | none, some task => some task.id
  | none, none => s.latestProcessed

/-- No request in flight, nothing in the channel, and the last task taken is recorded. -/
structure Settled (s : State) : Prop where
  running : s.running = true
  requests : s.requests = []
  channel : s.channel = []
  downstream : s.downstream = .idle

/-- A settled poller will poll again. -/
def NeverStuck (s : State) : Prop := Settled s → s.latestProcessed = s.latestQueried

/-- A start finds no queried task without a processed one, and the end of the last outstanding
request leaves the queried cursor at the tail. -/
def KeepsUp (s : State) : Action → Prop
  | .start _ => s.latestProcessed = none → s.latestQueried = none
  | .respond _ (.error _) => s.requests.length = 1 → s.latestQueried = s.tail
  | .respond _ (.ok ⟨[]⟩) => s.requests.length = 1 → s.latestQueried = s.tail
  | .setQueried i result =>
    match s.requests[i]? with
    | some (.setting lastTaskItemId) => s.requests.length = 1 →
        if result.stores then some lastTaskItemId = s.tail else s.latestQueried = s.tail
    | _ => True
  | _ => True

instance (s : State) (a : Action) : Decidable (KeepsUp s a) := by
  unfold KeepsUp
  split <;> try infer_instance
  split <;> infer_instance

variable {s s' : State} {getChainsLimit : UInt8}

/-- The queried cursor after its setter. -/
theorem latestQueried_setLatestQueried {id : TaskItemId} {result : SetResult}
    {c : Option TaskItemId} : (s.setLatestQueried id result).latestQueried = c ↔
      if result.stores then some id = c else s.latestQueried = c := by
  unfold State.setLatestQueried
  cases result.stores <;> simp

/-- In a settled state the next tick sends a request if and only if the cursors are equal. -/
theorem settled_polls_iff (h : Settled s) (hpoll : s.poll = .idle) :
    (∃ s', exec (step getChainsLimit) s [.tick, .readProcessed, .readQueried true] = some s' ∧
      s'.requests ≠ []) ↔ s.latestProcessed = s.latestQueried := by
  by_cases heq : s.latestProcessed = s.latestQueried
  · simp [exec, step, internal, h.running, hpoll, h.channel, heq]
  · simp [exec, step, internal, h.running, hpoll, h.channel, heq, h.requests]

/-! ### The tail -/

theorem tail_of_drained (hch : s.channel = []) (hd : s.downstream = .idle) :
    s.tail = s.latestProcessed := by
  simp [State.tail, hch, hd, Downstream.task]

theorem tail_takeTask {t : TaskItem} {rest : List TaskItem} (hch : s.channel = t :: rest) :
    (s.takeTask t rest).tail = s.tail := by
  unfold State.tail State.takeTask
  rw [hch]
  cases hrest : rest.getLast? with
  | none =>
    rw [List.getLast?_eq_none_iff] at hrest
    subst hrest
    rfl
  | some u =>
    have hne : rest ≠ [] := by
      rintro rfl
      cases hrest
    rw [List.getLast?_cons_of_ne_nil hne, hrest]

theorem tail_recordTask {t : TaskItem} {result : SetResult} (hd : s.downstream.task = some t) :
    (s.recordTask t result).tail = s.tail := by
  unfold State.tail
  rw [hd]
  have hch : (s.recordTask t result).channel = s.channel := rfl
  rw [hch]
  cases s.channel.getLast? with
  | some u => rfl
  | none => cases result <;> rfl

/-- The consumer touches neither the requests nor the queried cursor, and keeps the tail. -/
structure Kept (s s' : State) : Prop where
  running : s'.running = s.running
  requests : s'.requests = s.requests
  queried : s'.latestQueried = s.latestQueried
  tail : s'.tail = s.tail

theorem Kept.trans {s'' : State} (h : Kept s s') (h' : Kept s' s'') : Kept s s'' :=
  ⟨h'.1.trans h.1, h'.2.trans h.2, h'.3.trans h.3, h'.4.trans h.4⟩

theorem kept_consume {a : Action} (hs : consume s a = some s') : Kept s s' := by
  cases a <;> simp only [consume] at hs <;> try contradiction
  case take =>
    split at hs <;> cases hs <;> rename_i hch <;> exact ⟨rfl, rfl, rfl, tail_takeTask hch⟩
  case handle =>
    split at hs <;> cases hs
    rename_i t hd
    refine ⟨rfl, rfl, rfl, ?_⟩
    simp [State.tail, hd, Downstream.task]
  case record result =>
    split at hs <;> cases hs <;> rename_i t hd <;>
      exact ⟨rfl, rfl, rfl, tail_recordTask (by simp [hd, Downstream.task])⟩

/-! ### Every channel can be drained -/

/-- The consumer can finish the task it took last. -/
theorem exists_reach_idle (getChainsLimit : UInt8) (s : State) :
    ∃ s', Reach (ofFn (step getChainsLimit)) s s' ∧ Kept s s' ∧ s'.channel = s.channel ∧
      s'.downstream = .idle := by
  have hrecord : ∀ s t, s.downstream = .recording t ∨ s.downstream = .unrecorded t →
      ∃ s', Reach (ofFn (step getChainsLimit)) s s' ∧ Kept s s' ∧ s'.channel = s.channel ∧
        s'.downstream = .idle := by
    intro s t hd
    have hs : consume s (.record .ok) = some (s.recordTask t .ok) := by
      rcases hd with hd | hd <;> simp [consume, hd]
    exact ⟨_, .single (a := .record .ok) hs, kept_consume hs, rfl, rfl⟩
  cases hd : s.downstream with
  | idle => exact ⟨s, .refl, ⟨rfl, rfl, rfl, rfl⟩, rfl, hd⟩
  | recording t => exact hrecord s t (Or.inl hd)
  | unrecorded t => exact hrecord s t (Or.inr hd)
  | handling t =>
    have hs : consume s .handle =
        some { s with downstream := .recording t, handled := t :: s.handled } := by
      simp [consume, hd]
    obtain ⟨s', hr, hk, hch, hidle⟩ :=
      hrecord { s with downstream := .recording t, handled := t :: s.handled } t (Or.inl rfl)
    exact ⟨s', (Reach.single (a := .handle) hs).trans hr, (kept_consume hs).trans hk, hch, hidle⟩

/-- The consumer can work through the whole channel. -/
theorem exists_reach_drained (getChainsLimit : UInt8) (s : State) :
    ∃ s', Reach (ofFn (step getChainsLimit)) s s' ∧ Kept s s' ∧ s'.channel = [] ∧
      s'.downstream = .idle := by
  induction hch : s.channel generalizing s with
  | nil =>
    obtain ⟨s', hr, hk, hch', hidle⟩ := exists_reach_idle getChainsLimit s
    exact ⟨s', hr, hk, hch'.trans hch, hidle⟩
  | cons t rest ih =>
    obtain ⟨s₁, hr₁, hk₁, hch₁, hidle₁⟩ := exists_reach_idle getChainsLimit s
    have hs : consume s₁ .take = some (s₁.takeTask t rest) := by
      simp [consume, hidle₁, hch₁, hch]
    obtain ⟨s', hr, hk, hnil, hidle⟩ := ih (s₁.takeTask t rest) rfl
    exact ⟨s', (hr₁.trans (.single (a := .take) hs)).trans hr,
      (hk₁.trans (kept_consume hs)).trans hk, hnil, hidle⟩

/-! ### Keeping up -/

theorem stopped_of_reach (h : Reach (ofFn (step getChainsLimit)) init s) :
    s.running = false → Stopped s :=
  h.invariant (p := fun s => s.running = false → Stopped s)
    (fun _ => stopped_boot .empty none none) fun _ _ _ => stopped_step

/-- Whenever no request is outstanding the queried cursor is at the tail. -/
def Synced (s : State) : Prop := s.running = true → s.requests = [] → s.latestQueried = s.tail

theorem neverStuck_of_synced (h : Synced s) : NeverStuck s := by
  intro hs
  rw [h hs.running hs.requests, tail_of_drained hs.channel hs.downstream]

/-- A request whose end leaves none outstanding was the only one. -/
theorem length_of_finish {i : ℕ} {r : Request} (hi : s.requests[i]? = some r)
    (h : (s.finish i).requests = []) : s.requests.length = 1 := by
  obtain ⟨hlt, -⟩ := List.getElem?_eq_some_iff.1 hi
  have hlen : (s.requests.eraseIdx i).length = 0 := by
    rw [show s.requests.eraseIdx i = [] from h]
    rfl
  rw [List.length_eraseIdx_of_lt hlt] at hlen
  omega

/-- A background task that keeps up leaves the cursor at the tail when it is the last to end. -/
theorem synced_processTaskRequest {a : Action} (hok : KeepsUp s a)
    (hs : processTaskRequest getChainsLimit s a = some s') : Synced s' := by
  intro _ hnil
  rcases processTaskRequest_cases hs with ⟨i, c, answer, rfl, hi, hans, rfl⟩ |
    ⟨i, c, tasks, last, -, hi, -, -, rfl⟩ | ⟨i, t, rest, last, -, hi, rfl⟩ |
    ⟨i, last, result, rfl, hi, rfl⟩
  · have hone := length_of_finish hi hnil
    rcases hans with ⟨cause, rfl⟩ | rfl
    · exact hok hone
    · exact hok hone
  · rw [List.set_eq_nil_iff] at hnil
    simp [hnil] at hi
  · rw [List.set_eq_nil_iff] at hnil
    simp [hnil] at hi
  · have hone := length_of_finish (s := s.setLatestQueried last result) hi hnil
    simp only [KeepsUp, hi] at hok
    exact latestQueried_setLatestQueried.2 (hok hone)

theorem synced_step {a : Action} (hstop : s.running = false → Stopped s) (h : Synced s)
    (hok : KeepsUp s a) (hs : step getChainsLimit s a = some s') : Synced s' := by
  rcases step_cases hs with ⟨t, ht, rfl⟩ | ⟨result, rfl, hno, rfl⟩ | ⟨-, rfl⟩ | hs | hs | hs
  · exact h
  · intro hrun _
    obtain ⟨-, -, hch, hd⟩ := hstop hno
    have htail := tail_of_drained hch hd
    cases hp : s.latestProcessed with
    | none =>
      rw [startProcess_none hp]
      show s.latestQueried = s.tail
      rw [htail, hp]
      exact hok hp
    | some id =>
      rw [startProcess_some hp] at hrun ⊢
      show (s.setLatestQueried id result).latestQueried = s.tail
      have hres : result = .ok := by simpa using hrun
      rw [htail, hp, hres]
      rfl
  · intro hrun
    cases hrun
  · obtain ⟨-, ⟨p, -, rfl⟩ | ⟨-, -, rfl⟩⟩ := internal_cases hs
    · exact h
    · intro _ hnil
      simp at hnil
  · exact synced_processTaskRequest hok hs
  · have hkept := kept_consume hs
    intro hrun hnil
    rw [hkept.queried, hkept.tail]
    exact h (hkept.running ▸ hrun) (hkept.requests ▸ hnil)

theorem synced_of_reach (h : Reach (when (ofFn (step getChainsLimit)) KeepsUp) init s) :
    Synced s := by
  induction h with
  | refl =>
    intro hrun
    cases hrun
  | tail hreach hs ih =>
    exact synced_step (stopped_of_reach hreach.of_when) ih hs.1 hs.2

/-! ### One request at a time -/

/-- Requests do not overlap, the setter of the queried cursor stores its id, and no start finds a
queried task without a processed one. -/
def Steady (s : State) : Action → Prop
  | .start _ => s.latestProcessed = none → s.latestQueried = none
  | .setQueried _ result => result.stores = true
  | a => Alone s a

/-- The request will leave the queried cursor at the tail. -/
def Request.Tracked (s : State) : Request → Prop
  | .waiting _ => s.latestQueried = s.tail
  | .sending rest last => rest.getLast?.map TaskItem.id = some last
  | .setting last => s.tail = some last

/-- At most one request is outstanding, and it is tracked. -/
def Tracked (s : State) : Prop := ∀ r ∈ s.requests, s.requests = [r] ∧ r.Tracked s

theorem Request.Tracked.frame {r : Request} (h : r.Tracked s)
    (hqueried : s'.latestQueried = s.latestQueried) (htail : s'.tail = s.tail) : r.Tracked s' := by
  cases r with
  | waiting after => exact hqueried.trans (Eq.trans h htail.symm)
  | sending rest last => exact h
  | setting last => exact htail.trans h

theorem Tracked.frame (h : Tracked s) (hrequests : s'.requests = s.requests)
    (hqueried : s'.latestQueried = s.latestQueried) (htail : s'.tail = s.tail) : Tracked s' := by
  intro r hr
  rw [hrequests] at hr ⊢
  exact ⟨(h r hr).1, (h r hr).2.frame hqueried htail⟩

theorem Tracked.getElem? (h : Tracked s) {i : ℕ} {r : Request} (hi : s.requests[i]? = some r) :
    s.requests = [r] ∧ i = 0 ∧ r.Tracked s := by
  obtain ⟨hreq, hr⟩ := h r (List.mem_of_getElem? hi)
  rw [hreq] at hi
  obtain ⟨hlt, -⟩ := List.getElem?_eq_some_iff.1 hi
  exact ⟨hreq, Nat.lt_one_iff.1 hlt, hr⟩

/-- A tracked request that ends leaves none. -/
theorem tracked_finish {i : ℕ} {r : Request} (hreq : s.requests = [r]) (hi : i = 0) :
    Tracked (s.finish i) := by
  intro r' hr'
  have hnil : (s.finish i).requests = [] := by
    show s.requests.eraseIdx i = []
    rw [hreq, hi]
    rfl
  rw [hnil] at hr'
  cases hr'

theorem tracked_processTaskRequest {a : Action} (h : Tracked s)
    (hs : processTaskRequest getChainsLimit s a = some s') : Tracked s' := by
  rcases processTaskRequest_cases hs with ⟨i, c, answer, -, hi, -, rfl⟩ |
    ⟨i, c, tasks, last, -, hi, -, hlast, rfl⟩ | ⟨i, t, rest, last, -, hi, rfl⟩ |
    ⟨i, last, result, -, hi, rfl⟩
  · obtain ⟨hreq, hzero, -⟩ := h.getElem? hi
    exact tracked_finish hreq hzero
  · obtain ⟨hreq, rfl, -⟩ := h.getElem? hi
    have hset : s.requests.set 0 (.sending tasks last.id) = [.sending tasks last.id] := by
      rw [hreq]
      rfl
    intro r hr
    obtain rfl := List.mem_singleton.1 (hset ▸ hr)
    exact ⟨hset, congrArg (Option.map TaskItem.id) hlast⟩
  · obtain ⟨hreq, rfl, hr⟩ := h.getElem? hi
    have hset : ∀ r, s.requests.set 0 r = [r] := by
      intro r
      rw [hreq]
      rfl
    intro r hmem
    obtain rfl := List.mem_singleton.1 (hset _ ▸ hmem)
    refine ⟨hset _, ?_⟩
    split_ifs with hrest
    · -- the last task of the answer is now the last one in the channel
      subst hrest
      have hid : some t.id = some last := hr
      show State.tail _ = some last
      rw [← hid]
      simp [State.tail]
    · have hlast := List.getLast?_cons_of_ne_nil (x := t) hrest
      show rest.getLast?.map TaskItem.id = some last
      rw [← hlast]
      exact hr
  · obtain ⟨hreq, hzero, -⟩ := h.getElem? hi
    exact tracked_finish (s := s.setLatestQueried last result) hreq hzero

theorem tracked_step {a : Action} (hstop : s.running = false → Stopped s) (hsync : Synced s)
    (h : Tracked s) (hok : Steady s a) (hs : step getChainsLimit s a = some s') : Tracked s' := by
  rcases step_cases hs with ⟨t, ht, rfl⟩ | ⟨result, rfl, hno, rfl⟩ | ⟨-, rfl⟩ | hs | hs | hs
  · exact h.frame rfl rfl rfl
  · have hnil : (startProcess s result).requests = [] := by
      have hreq := (hstop hno).requests
      unfold startProcess
      split <;> exact hreq
    intro r hr
    rw [hnil] at hr
    cases hr
  · intro r hr
    cases hr
  · have hrun := (running_of_moved getChainsLimit hstop (Or.inl hs)).1
    obtain ⟨-, ⟨p, -, rfl⟩ | ⟨rfl, hp, rfl⟩⟩ := internal_cases hs
    · exact h.frame rfl rfl rfl
    · have hreq : s.requests = [] := hok rfl hp
      intro r hr
      have hnew : s.requests ++ [.waiting s.latestQueried] = [.waiting s.latestQueried] := by
        rw [hreq]
        rfl
      obtain rfl := List.mem_singleton.1 (hnew ▸ hr)
      exact ⟨hnew, hsync hrun hreq⟩
  · exact tracked_processTaskRequest h hs
  · have hkept := kept_consume hs
    exact h.frame hkept.requests hkept.queried hkept.tail

/-- A tracked request keeps up when it ends. -/
theorem keepsUp_of_tracked {a : Action} (h : Tracked s) (hok : Steady s a)
    (hs : step getChainsLimit s a = some s') : KeepsUp s a := by
  cases a with
  | start result => exact hok
  | respond i answer =>
    have hs : processTaskRequest getChainsLimit s (.respond i answer) = some s' := hs
    rcases processTaskRequest_cases hs with ⟨j, c, answer, heq, hi, hans, -⟩ |
      ⟨j, c, tasks, last, heq, -, -, hlast, -⟩ | ⟨j, t, rest, last, heq, -⟩ |
      ⟨j, last, result, heq, -⟩
    · cases heq
      have htail : s.latestQueried = s.tail := (h.getElem? hi).2.2
      rcases hans with ⟨cause, rfl⟩ | rfl <;> exact fun _ => htail
    · cases heq
      cases tasks with
      | nil => cases hlast
      | cons t tasks => trivial
    · cases heq
    · cases heq
  | setQueried i result =>
    have hstores : result.stores = true := hok
    simp only [KeepsUp, hstores, if_true]
    split
    · rename_i last hi
      exact fun _ => (h.getElem? hi).2.2.symm
    · trivial
  | _ => trivial

/-- The runs with one request at a time, a setter that stores and no bad start keep up. -/
theorem reach_keepsUp_of_steady (h : Reach (when (ofFn (step getChainsLimit)) Steady) init s) :
    Reach (when (ofFn (step getChainsLimit)) KeepsUp) init s ∧ Tracked s := by
  induction h with
  | refl => exact ⟨.refl, fun r hr => by cases hr⟩
  | tail hreach hs ih =>
    have hkeeps := keepsUp_of_tracked ih.2 hs.1 hs.2
    exact ⟨ih.1.tail ⟨hkeeps, hs.2⟩,
      tracked_step (stopped_of_reach hreach.of_when) (synced_of_reach ih.1) ih.2 hs.1 hs.2⟩

/-- So they never get stuck. -/
theorem neverStuck_of_steady (h : Reach (when (ofFn (step getChainsLimit)) Steady) init s) :
    NeverStuck s :=
  neverStuck_of_synced (synced_of_reach (reach_keepsUp_of_steady h).1)

/-! ### Falling behind -/

/-- No request is outstanding, and the queried cursor is off the tail. -/
structure Behind (s : State) : Prop where
  running : s.running = true
  requests : s.requests = []
  queried : s.latestQueried ≠ s.tail

/-- A poller that is behind gets stuck once the channel is drained. -/
theorem exists_stuck_of_behind (getChainsLimit : UInt8) (h : Behind s) :
    ∃ s', Reach (ofFn (step getChainsLimit)) s s' ∧ ¬ NeverStuck s' := by
  obtain ⟨s', hr, hk, hch, hd⟩ := exists_reach_drained getChainsLimit s
  refine ⟨s', hr, fun hno => h.queried ?_⟩
  have hset : Settled s' := ⟨hk.running.trans h.running, hk.requests.trans h.requests, hch, hd⟩
  rw [← hk.queried, ← hk.tail, tail_of_drained hch hd, hno hset]

theorem requests_finish_of_length {i : ℕ} {r : Request} (hi : s.requests[i]? = some r)
    (h : s.requests.length = 1) : (s.finish i).requests = [] := by
  obtain ⟨hlt, -⟩ := List.getElem?_eq_some_iff.1 hi
  refine List.length_eq_zero_iff.1 (show (s.requests.eraseIdx i).length = 0 from ?_)
  rw [List.length_eraseIdx_of_lt hlt]
  omega

/-- A background task that is the last to end and does not keep up leaves the poller behind. -/
theorem behind_processTaskRequest {a : Action} (hstop : s.running = false → Stopped s)
    (hs : processTaskRequest getChainsLimit s a = some s') (hno : ¬ KeepsUp s a) : Behind s' := by
  have hrunning := (running_of_moved getChainsLimit hstop (Or.inr (Or.inl hs))).2
  rcases processTaskRequest_cases hs with ⟨i, c, answer, rfl, hi, hans, rfl⟩ |
    ⟨i, c, tasks, last, rfl, hi, -, hlast, rfl⟩ | ⟨i, t, rest, last, rfl, hi, rfl⟩ |
    ⟨i, last, result, rfl, hi, rfl⟩
  · have hnot : ¬ (s.requests.length = 1 → s.latestQueried = s.tail) := by
      rcases hans with ⟨cause, rfl⟩ | rfl <;> exact hno
    obtain ⟨hone, hq⟩ := Classical.not_imp.1 hnot
    exact ⟨hrunning, requests_finish_of_length hi hone, hq⟩
  · cases tasks with
    | nil => cases hlast
    | cons t tasks => exact absurd trivial hno
  · exact absurd trivial hno
  · simp only [KeepsUp, hi] at hno
    obtain ⟨hone, hq⟩ := Classical.not_imp.1 hno
    exact ⟨hrunning, requests_finish_of_length (s := s.setLatestQueried last result) hi hone,
      fun heq => hq (latestQueried_setLatestQueried.1 heq)⟩

theorem behind_of_not_keepsUp {a : Action} (hstop : s.running = false → Stopped s)
    (hs : step getChainsLimit s a = some s') (hno : ¬ KeepsUp s a) : Behind s' := by
  cases a with
  | start result =>
    obtain ⟨hrun, hs⟩ := Option.ite_none_left_eq_some.1 hs
    obtain ⟨hp, hq⟩ := Classical.not_imp.1 hno
    obtain ⟨-, hreq, hch, hd⟩ := hstop (by simpa using hrun)
    rw [startProcess_none hp] at hs
    cases hs
    refine ⟨rfl, hreq, ?_⟩
    show s.latestQueried ≠ s.tail
    rw [tail_of_drained hch hd, hp]
    exact hq
  | respond i answer =>
    have hs : processTaskRequest getChainsLimit s (.respond i answer) = some s' := hs
    exact behind_processTaskRequest hstop hs hno
  | setQueried i result =>
    have hs : processTaskRequest getChainsLimit s (.setQueried i result) = some s' := hs
    exact behind_processTaskRequest hstop hs hno
  | _ => exact absurd trivial hno

/-- **The poller never gets stuck as long as it keeps up.** Runs that keep up have equal cursors
in all their settled states; a step that does not keep up can be continued to a settled state
with different cursors. -/
theorem poller_never_stuck_iff_keepsUp (getChainsLimit : UInt8) :
    (∀ s, Reach (when (ofFn (step getChainsLimit)) KeepsUp) init s → NeverStuck s) ∧
    ∀ s a s', Reach (ofFn (step getChainsLimit)) init s → step getChainsLimit s a = some s' →
      ¬ KeepsUp s a → ∃ t, Reach (ofFn (step getChainsLimit)) s' t ∧ ¬ NeverStuck t := by
  constructor
  · intro s h
    exact neverStuck_of_synced (synced_of_reach h)
  · intro s a s' h hs hno
    exact exists_stuck_of_behind _ (behind_of_not_keepsUp (stopped_of_reach h) hs hno)

/-! ### A crash before the first task is recorded -/

def onlyTask : TaskItem := ⟨⟨1⟩, ⟨5, 0⟩, .gatewayTx ⟨[]⟩⟩

/-- The only task listed is fetched, sent, and becomes the queried one. -/
def fetchTask : List Action :=
  [.start .ok, .listTask onlyTask, .tick, .readProcessed, .readQueried true,
    .respond 0 (.ok ⟨[onlyTask]⟩), .send 0, .setQueried 0 .ok]

theorem poller_stuck_after_crash :
    ∃ s, Reach (ofFn (step 4)) init s ∧ ¬ NeverStuck s := by
  obtain ⟨s, hs, hp⟩ := exists_reach_of_exec (step 4) init (fetchTask ++ [.crash, .start .ok])
    (fun s => s.running && s.requests.isEmpty && s.channel.isEmpty && s.downstream == .idle &&
      s.latestProcessed != s.latestQueried) (by decide)
  simp only [Bool.and_eq_true, List.isEmpty_iff, beq_iff_eq, bne_iff_ne] at hp
  obtain ⟨⟨⟨⟨hrun, hreq⟩, hch⟩, hd⟩, hne⟩ := hp
  exact ⟨s, hs, fun hno => hne (hno ⟨hrun, hreq, hch, hd⟩)⟩

/-- The theorem on a task that is recorded, and on one that is lost in a crash. -/
theorem poller_never_stuck_one_task :
    (∃ s, s.latestProcessed = some onlyTask.id ∧ NeverStuck s) ∧ ∃ s, ¬ NeverStuck s := by
  constructor
  · obtain ⟨s, hs, hp⟩ := exists_reach_when_of_exec (step 4) KeepsUp init
      (fetchTask ++ [.take, .handle, .record .ok])
      (fun s => s.latestProcessed == some onlyTask.id) (by decide)
    exact ⟨s, by simpa using hp, (poller_never_stuck_iff_keepsUp 4).1 s hs⟩
  · obtain ⟨s, hs, hp⟩ := exists_reach_of_exec (step 4) init (fetchTask ++ [.crash])
      (fun s => !s.running && s.latestProcessed == none && s.latestQueried == some onlyTask.id)
      (by decide)
    simp only [Bool.and_eq_true, Bool.not_eq_true', beq_iff_eq] at hp
    obtain ⟨⟨hrun, hp⟩, hq⟩ := hp
    have hstart : step 4 s (.start .ok) = some (startProcess s .ok) := by simp [step, hrun]
    have hno : ¬ KeepsUp s (.start .ok) := by simp [KeepsUp, hp, hq]
    obtain ⟨t, -, ht⟩ := (poller_never_stuck_iff_keepsUp 4).2 s _ _ hs hstart hno
    exact ⟨t, ht⟩

end FromAmplifier
end RelayerCore
