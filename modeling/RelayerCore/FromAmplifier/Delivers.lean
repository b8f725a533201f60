import RelayerCore.FromAmplifier.Duplicate
import RelayerCore.FromAmplifier.Skip
import RelayerCore.FromAmplifier.Stuck
import RelayerCore.Lib.Fair

/-!
# Every task is handled, once and in order

In the runs without a crash whose requests are spawned alone, the tasks pushed so far are exactly
those between the task that was processed last before the start and the queried cursor.  The queried
cursor is the tail whenever no answer is on its way, so the poller always polls again, and what it
pushes is handled in the order of the listing.

* `Exact`: the invariant;
* `poller_delivers_all`: what is handled is the beginning of what is listed, and everything listed
  is handled some time.
-/

namespace RelayerCore
namespace FromAmplifier

open Machine

/-- No crash, no setter that fails, and no request beside another one. -/
def Careful (s : State) (a : Action) : Prop := Quiet s a ∧ Alone s a

instance (s : State) (a : Action) : Decidable (Careful s a) :=
  inferInstanceAs (Decidable (_ ∧ _))

/-! ### What is pushed is what is listed -/

/-- What was pushed leads from the task processed before the start to the cursor. -/
def Reached (processed : Option TaskItemId) (s : State) (c : Option TaskItemId) : Prop :=
  (∀ k ∈ c, k ∈ s.api.keys) ∧ s.api.upTo c = s.api.upTo processed ++ s.pushed

/-- What the outstanding request has still to push leads to the cursor it will set. -/
def Request.Exact (processed : Option TaskItemId) (s : State) : Request → Prop
  | .waiting after =>
    after = s.latestQueried ∧ Reached processed s s.latestQueried ∧ s.latestQueried = s.tail
  | .sending rest last =>
    last ∈ s.api.keys ∧ s.api.upTo (some last) = s.api.upTo processed ++ (s.pushed ++ rest) ∧
      rest.getLast?.map TaskItem.id = some last
  | .setting last => Reached processed s (some last) ∧ s.tail = some last

/-- The component has started: no request is outstanding, or one. -/
def Underway (processed : Option TaskItemId) (s : State) : Prop :=
  (s.requests = [] ∧ Reached processed s s.latestQueried ∧ s.latestQueried = s.tail) ∨
    ∃ r, s.requests = [r] ∧ r.Exact processed s

/-- The component has not started yet. -/
structure Fresh (processed : Option TaskItemId) (s : State) : Prop where
  stopped : Stopped s
  pushed : s.pushed = []
  latestProcessed : s.latestProcessed = processed
  latestQueried : processed = none → s.latestQueried = none

/-- The invariant of the runs that start after a processed task the API has listed. -/
structure Exact (processed : Option TaskItemId) (s : State) : Prop where
  known : ∀ k ∈ processed, k ∈ s.api.keys
  taken : s.pushed = s.handled.reverse ++ s.pipeline
  fresh : s.running = false → Fresh processed s
  underway : s.running = true → Underway processed s

section Invariant

variable {processed queried : Option TaskItemId} {getChainsLimit : UInt8} {s s' : State}
  {a : Action}

theorem exact_boot {api : TaskFeed} (hknown : ∀ k ∈ processed, k ∈ api.keys)
    (hqueried : processed = none → queried = none) :
    Exact processed (boot api processed queried) where
  known := hknown
  taken := rfl
  fresh _ := ⟨stopped_boot api processed queried, rfl, rfl, hqueried⟩
  underway h := by cases h

theorem mem_keys_push {api : TaskFeed} {t : TaskItem} (ht : t.id ∉ api.keys)
    {c : Option TaskItemId} (hc : ∀ k ∈ c, k ∈ api.keys) : ∀ k ∈ c, k ∈ (api.push t ht).keys := by
  intro k hk
  have hmem := hc k hk
  simp only [Feed.keys, Feed.push_entries, List.map_append, List.mem_append] at hmem ⊢
  exact Or.inl hmem

theorem Reached.listTask {c : Option TaskItemId} (h : Reached processed s c)
    (hknown : ∀ k ∈ processed, k ∈ s.api.keys) {t : TaskItem} (ht : t.id ∉ s.api.keys) :
    Reached processed { s with api := s.api.push t ht } c := by
  refine ⟨mem_keys_push ht h.1, ?_⟩
  show (s.api.push t ht).upTo c = (s.api.push t ht).upTo processed ++ s.pushed
  rw [Feed.upTo_push ht h.1, Feed.upTo_push ht hknown, h.2]

theorem Request.Exact.listTask {r : Request} (h : r.Exact processed s)
    (hknown : ∀ k ∈ processed, k ∈ s.api.keys) {t : TaskItem} (ht : t.id ∉ s.api.keys) :
    r.Exact processed { s with api := s.api.push t ht } := by
  cases r with
  | waiting after => exact ⟨h.1, h.2.1.listTask hknown ht, h.2.2⟩
  | sending rest last =>
    obtain ⟨hlast, hup, hrest⟩ := h
    have hlast' : ∀ k ∈ some last, k ∈ s.api.keys := by
      rintro k ⟨⟩
      exact hlast
    refine ⟨mem_keys_push ht hlast' last rfl, ?_, hrest⟩
    show (s.api.push t ht).upTo (some last) = (s.api.push t ht).upTo processed ++ _
    rw [Feed.upTo_push ht hlast', Feed.upTo_push ht hknown, hup]
  | setting last => exact ⟨h.1.listTask hknown ht, h.2⟩

/-- The start continues from the processed task. -/
theorem underway_start (h : Exact processed s) (hfresh : Fresh processed s) :
    Underway processed (startProcess s .ok) ∧ (startProcess s .ok).running = true := by
  obtain ⟨⟨-, hreq, hch, hd⟩, hpushed, hp, hq⟩ := hfresh
  have htail := tail_of_drained hch hd
  cases hc : processed with
  | none =>
    rw [hc] at hp
    rw [startProcess_none hp]
    refine ⟨Or.inl ⟨hreq, ?_, ?_⟩, rfl⟩
    · show Reached none s s.latestQueried
      rw [hq hc]
      exact ⟨by simp, by rw [hpushed, List.append_nil]⟩
    · show s.latestQueried = s.tail
      rw [hq hc, htail, hp]
  | some id =>
    rw [hc] at hp
    rw [startProcess_some hp]
    have hknown := h.known
    rw [hc] at hknown
    refine ⟨Or.inl ⟨hreq, ⟨hknown, ?_⟩, ?_⟩, rfl⟩
    · show s.api.upTo (some id) = s.api.upTo (some id) ++ s.pushed
      rw [hpushed, List.append_nil]
    · show some id = s.tail
      rw [htail, hp]

/-- A request that is outstanding is the only one. -/
theorem Underway.exact_of_getElem? (h : Underway processed s) {i : ℕ} {r : Request}
    (hi : s.requests[i]? = some r) : i = 0 ∧ s.requests = [r] ∧ r.Exact processed s := by
  rcases h with ⟨hnil, -⟩ | ⟨q, hq, hexact⟩
  · simp [hnil] at hi
  · rw [hq] at hi
    obtain ⟨rfl, rfl⟩ := eq_of_getElem?_single hi
    exact ⟨rfl, hq, hexact⟩

/-- The only request moves on. -/
theorem underway_processTaskRequest (h : Underway processed s) (hquiet : Quiet s a)
    (hs : processTaskRequest getChainsLimit s a = some s') : Underway processed s' := by
  rcases processTaskRequest_cases hs with ⟨i, c, answer, -, hi, -, rfl⟩ |
    ⟨i, c, tasks, last, -, hi, hans, hlast, rfl⟩ | ⟨i, t, rest, last, -, hi, rfl⟩ |
    ⟨i, last, result, rfl, hi, rfl⟩
  · obtain ⟨rfl, hreq, rfl, hreached, htail⟩ := h.exact_of_getElem? hi
    exact Or.inl ⟨by simp [State.finish, hreq], hreached, htail⟩
  · obtain ⟨rfl, hreq, rfl, ⟨-, hup⟩, -⟩ := h.exact_of_getElem? hi
    obtain ⟨n, hn⟩ := s.api.getChains_eq_take s.latestQueried (some getChainsLimit)
    obtain ⟨hup', hmem⟩ := Feed.upTo_last_take_after (hn ▸ hans ▸ hlast)
    refine Or.inr ⟨.sending tasks last.id, by simp [hreq], hmem, ?_, by rw [hlast]; rfl⟩
    rw [hup', hup, hans, hn, List.append_assoc]
  · obtain ⟨rfl, hreq, hmem, hup, hrest⟩ := h.exact_of_getElem? hi
    have hsplit : s.pushed ++ t :: rest = (s.pushed ++ [t]) ++ rest := by simp
    by_cases hnil : rest = []
    · subst hnil
      refine Or.inr ⟨.setting last, by simp [hreq], ⟨?_, ?_⟩, ?_⟩
      · rintro k ⟨⟩
        exact hmem
      · exact hup
      · show State.tail _ = some last
        simpa [State.tail] using hrest
    · refine Or.inr ⟨.sending rest last, by simp [hreq, hnil], hmem, ?_, ?_⟩
      · rw [hup, hsplit]
      · rwa [List.getLast?_cons_of_ne_nil hnil] at hrest
  · obtain ⟨rfl, hreq, hreached, htail⟩ := h.exact_of_getElem? hi
    have hok : result = .ok := hquiet
    subst hok
    exact Or.inl ⟨by simp [State.finish, State.setLatestQueried, hreq], hreached, htail.symm⟩

/-- The consumer takes the tasks off the channel in order. -/
theorem taken_consume (h : s.pushed = s.handled.reverse ++ s.pipeline)
    (hs : consume s a = some s') : s'.pushed = s'.handled.reverse ++ s'.pipeline := by
  cases a <;> simp only [consume] at hs <;> try contradiction
  case take =>
    split at hs <;> cases hs <;> rename_i hd hch
    all_goals
      have hpipe : s.pipeline = s.channel := by simp [State.pipeline, Downstream.held, hd]
      rw [hpipe, hch] at h
      exact h
  case handle =>
    split at hs <;> cases hs
    rename_i t hd
    rw [h]
    simp [State.pipeline, Downstream.held, hd]
  case record result =>
    split at hs <;> cases hs <;> rename_i t hd
    all_goals
      have hpipe : s.pipeline = s.channel := by simp [State.pipeline, Downstream.held, hd]
      rw [hpipe] at h
      cases result <;> exact h

/-- The consumer leaves the requests and the cursor alone, and the tail stays. -/
theorem underway_consume (h : Underway processed s) (hs : consume s a = some s') :
    Underway processed s' := by
  obtain ⟨hapi, hreq, hpushed, hq⟩ := consume_frame hs
  have htail := (kept_consume hs).tail
  have hreached : ∀ {c}, Reached processed s c → Reached processed s' c := by
    intro c hc
    unfold Reached
    rw [hapi, hpushed]
    exact hc
  rcases h with ⟨hnil, hr, hsync⟩ | ⟨r, hr, hexact⟩
  · refine Or.inl ⟨hreq.trans hnil, ?_, by rw [hq, htail, hsync]⟩
    rw [hq]
    exact hreached hr
  · refine Or.inr ⟨r, hreq.trans hr, ?_⟩
    cases r with
    | waiting after =>
      obtain ⟨hafter, hcursor, hsync⟩ := hexact
      refine ⟨by rw [hq, hafter], ?_, by rw [hq, htail, hsync]⟩
      rw [hq]
      exact hreached hcursor
    | sending rest last =>
      show last ∈ s'.api.keys ∧ s'.api.upTo _ = s'.api.upTo _ ++ (s'.pushed ++ rest) ∧ _
      rw [hapi, hpushed]
      exact hexact
    | setting last => exact ⟨hreached hexact.1, htail.trans hexact.2⟩

/-- The poller spawns a request only when none is there, for the tasks after the cursor. -/
theorem underway_internal (h : Underway processed s) (halone : Alone s a)
    (hs : internal s a = some s') : Underway processed s' := by
  obtain ⟨-, ⟨p, -, rfl⟩ | ⟨rfl, hpoll, rfl⟩⟩ := internal_cases hs
  · rcases h with hnil | ⟨r, hr, hexact⟩
    · exact Or.inl hnil
    · refine Or.inr ⟨r, hr, ?_⟩
      cases r <;> exact hexact
  · have hnil : s.requests = [] := halone rfl hpoll
    rcases h with ⟨-, hreached, hsync⟩ | ⟨r, hr, -⟩
    · exact Or.inr ⟨.waiting s.latestQueried, by simp [hnil], rfl, hreached, hsync⟩
    · rw [hnil] at hr
      cases hr

/-- What is sent into the channel is pushed. -/
theorem taken_processTaskRequest (h : s.pushed = s.handled.reverse ++ s.pipeline)
    (hs : processTaskRequest getChainsLimit s a = some s') :
    s'.pushed = s'.handled.reverse ++ s'.pipeline := by
  rcases processTaskRequest_cases hs with ⟨_, _, _, -, -, -, rfl⟩ |
    ⟨_, _, _, _, -, -, -, -, rfl⟩ | ⟨i, t, rest, last, -, -, rfl⟩ | ⟨_, _, _, -, -, rfl⟩
  · exact h
  · exact h
  · show s.pushed ++ [t] = s.handled.reverse ++ (s.downstream.held ++ (s.channel ++ [t]))
    rw [h, State.pipeline]
    simp
  · exact h

theorem taken_internal (h : s.pushed = s.handled.reverse ++ s.pipeline)
    (hs : internal s a = some s') : s'.pushed = s'.handled.reverse ++ s'.pipeline := by
  obtain ⟨-, ⟨p, -, rfl⟩ | ⟨-, -, rfl⟩⟩ := internal_cases hs <;> exact h

theorem exact_step (h : Exact processed s) (hok : Careful s a)
    (hs : step getChainsLimit s a = some s') : Exact processed s' := by
  obtain ⟨hquiet, halone⟩ := hok
  have hstop : s.running = false → Stopped s := fun hno => (h.fresh hno).stopped
  rcases step_cases hs with ⟨t, ht, rfl⟩ | ⟨result, rfl, hno, rfl⟩ | ⟨rfl, -⟩ | hs | hs | hs
  · refine ⟨mem_keys_push ht h.known, h.taken, fun hno => ?_, fun hrun => ?_⟩
    · obtain ⟨⟨hpoll, hreq, hch, hd⟩, hpushed, hp, hq⟩ := h.fresh hno
      exact ⟨⟨hpoll, hreq, hch, hd⟩, hpushed, hp, hq⟩
    · rcases h.underway hrun with ⟨hnil, hreached, hsync⟩ | ⟨r, hr, hexact⟩
      · exact Or.inl ⟨hnil, hreached.listTask h.known ht, hsync⟩
      · exact Or.inr ⟨r, hr, hexact.listTask h.known ht⟩
  · have hok : result = .ok := hquiet
    subst hok
    obtain ⟨hunderway, hrun⟩ := underway_start h (h.fresh hno)
    refine ⟨?_, ?_, fun hno' => ?_, fun _ => hunderway⟩
    · cases hp : s.latestProcessed with
      | none => rw [startProcess_none hp]; exact h.known
      | some id => rw [startProcess_some hp]; exact h.known
    · cases hp : s.latestProcessed with
      | none => rw [startProcess_none hp]; exact h.taken
      | some id => rw [startProcess_some hp]; exact h.taken
    · rw [hrun] at hno'
      cases hno'
  · exact hquiet.elim
  · obtain ⟨hrun, hrun'⟩ := running_of_moved getChainsLimit hstop (Or.inl hs)
    refine ⟨?_, taken_internal h.taken hs, fun hno => absurd hno (by simp [hrun']),
      fun _ => underway_internal (h.underway hrun) halone hs⟩
    obtain ⟨-, ⟨p, -, rfl⟩ | ⟨-, -, rfl⟩⟩ := internal_cases hs <;> exact h.known
  · obtain ⟨hrun, hrun'⟩ := running_of_moved getChainsLimit hstop (Or.inr (Or.inl hs))
    refine ⟨?_, taken_processTaskRequest h.taken hs, fun hno => absurd hno (by simp [hrun']),
      fun _ => underway_processTaskRequest (h.underway hrun) hquiet hs⟩
    rcases processTaskRequest_cases hs with ⟨_, _, _, -, -, -, rfl⟩ |
      ⟨_, _, _, _, -, -, -, -, rfl⟩ | ⟨_, _, _, _, -, -, rfl⟩ | ⟨_, _, _, -, -, rfl⟩ <;>
        exact h.known
  · obtain ⟨hrun, hrun'⟩ := running_of_moved getChainsLimit hstop (Or.inr (Or.inr hs))
    refine ⟨?_, taken_consume h.taken hs, fun hno => absurd hno (by simp [hrun']),
      fun _ => underway_consume (h.underway hrun) hs⟩
    rw [(consume_frame hs).1]
    exact h.known

/-- What is listed after the task processed before the start begins with what was pushed. -/
theorem exists_after_eq (h : Exact processed s) :
    ∃ more, s.api.after processed = s.pushed ++ more := by
  cases hrun : s.running with
  | false => exact ⟨s.api.after processed, by rw [(h.fresh hrun).pushed, List.nil_append]⟩
  | true =>
    rcases h.underway hrun with ⟨-, hreached, -⟩ | ⟨r, -, hexact⟩
    · exact ⟨_, Feed.after_eq_append hreached.2⟩
    · cases r with
      | waiting after => exact ⟨_, Feed.after_eq_append hexact.2.1.2⟩
      | sending rest last =>
        refine ⟨rest ++ s.api.after (some last), ?_⟩
        rw [Feed.after_eq_append hexact.2.1, List.append_assoc]
      | setting last => exact ⟨_, Feed.after_eq_append hexact.1.2⟩

end Invariant

/-! ### What is pushed is handled -/

/-- Requests are built and answered. -/
def Served : Action → Prop
  | .readQueried false | .respond _ (.error _) => False
  | _ => True

def Smooth (s : State) (a : Action) : Prop := Careful s a ∧ Served a

instance : (a : Action) → Decidable (Served a)
  | .readQueried false | .respond _ (.error _) => isFalse id
  | .readQueried true | .respond _ (.ok _) | .listTask _ | .start _ | .crash | .tick
  | .readProcessed | .send _ | .setQueried _ _ | .take | .handle | .record _ => isTrue trivial

instance (s : State) (a : Action) : Decidable (Smooth s a) :=
  inferInstanceAs (Decidable (_ ∧ _))

inductive Helper
  | poll
  | request
  | consumer

/-- Who takes a step, while the component runs. -/
def Action.helper : Action → Option Helper
  | .tick | .readProcessed | .readQueried _ => some .poll
  | .respond .. | .send _ | .setQueried .. => some .request
  | .take | .handle | .record _ => some .consumer
  | .listTask _ | .start _ | .crash => none

def Helper.labels (H : Helper) : Set Action := {a | a.helper = some H}

/-- The steps of the consumer until it handles the next task. -/
def Downstream.wait : Downstream → ℕ
  | .handling _ => 0
  | .idle => 1
  | .recording _ | .unrecorded _ => 2

def handleRank (t : TaskItem) (s : State) : ℕ := 3 * s.pipeline.idxOf t + s.downstream.wait

/-- The consumer stands where it stood, with more behind it. -/
structure Forward (s s' : State) : Prop where
  running : s'.running = s.running
  handled : s'.handled = s.handled
  downstream : s'.downstream = s.downstream
  channel : ∃ more, s'.channel = s.channel ++ more

section Handled

variable {processed : Option TaskItemId} {getChainsLimit : UInt8} {s s' : State} {a : Action}
  {t : TaskItem}

/-- A running component that is not disturbed moves by one of its parties, or the listing grows. -/
theorem helper_cases (hrun : s.running = true) (hquiet : Quiet s a)
    (hs : step getChainsLimit s a = some s') :
    (a.helper = none ∧ ∃ task, ∃ h : task.id ∉ s.api.keys,
        s' = { s with api := s.api.push task h }) ∨
      (a.helper = some .poll ∧ internal s a = some s') ∨
      (a.helper = some .request ∧ processTaskRequest getChainsLimit s a = some s') ∨
      (a.helper = some .consumer ∧ consume s a = some s') := by
  cases a with
  | listTask task =>
    obtain ⟨api, hapi, rfl⟩ := Option.map_eq_some_iff.1 hs
    obtain ⟨h, rfl⟩ := Feed.push?_eq_some.1 hapi
    exact Or.inl ⟨rfl, task, h, rfl⟩
  | start result => simp [step, hrun] at hs
  | crash => exact hquiet.elim
  | tick | readProcessed | readQueried built => exact Or.inr (Or.inl ⟨rfl, hs⟩)
  | respond i answer | send i | setQueried i result => exact Or.inr (Or.inr (Or.inl ⟨rfl, hs⟩))
  | take | handle | record result => exact Or.inr (Or.inr (Or.inr ⟨rfl, hs⟩))

theorem forward_internal (hs : internal s a = some s') : Forward s s' := by
  obtain ⟨-, ⟨p, -, rfl⟩ | ⟨-, -, rfl⟩⟩ := internal_cases hs <;>
    exact ⟨rfl, rfl, rfl, [], (List.append_nil _).symm⟩

theorem forward_processTaskRequest (hs : processTaskRequest getChainsLimit s a = some s') :
    Forward s s' := by
  rcases processTaskRequest_cases hs with ⟨_, _, _, -, -, -, rfl⟩ |
    ⟨_, _, _, _, -, -, -, -, rfl⟩ | ⟨i, t, rest, last, -, -, rfl⟩ | ⟨_, _, _, -, -, rfl⟩
  · exact ⟨rfl, rfl, rfl, [], (List.append_nil _).symm⟩
  · exact ⟨rfl, rfl, rfl, [], (List.append_nil _).symm⟩
  · exact ⟨rfl, rfl, rfl, [t], rfl⟩
  · exact ⟨rfl, rfl, rfl, [], (List.append_nil _).symm⟩

/-- A running component that is not disturbed keeps running. -/
theorem running_step (hrun : s.running = true) (hquiet : Quiet s a)
    (hs : step getChainsLimit s a = some s') : s'.running = true := by
  rcases helper_cases hrun hquiet hs with ⟨-, task, hnew, rfl⟩ | ⟨-, hs⟩ | ⟨-, hs⟩ | ⟨-, hs⟩
  · exact hrun
  · exact (forward_internal hs).running.trans hrun
  · exact (forward_processTaskRequest hs).running.trans hrun
  · exact (kept_consume hs).running.trans hrun

theorem Forward.handleRank_eq (h : Forward s s') (ht : t ∈ s.pipeline) :
    t ∈ s'.pipeline ∧ handleRank t s' = handleRank t s := by
  obtain ⟨more, hmore⟩ := h.channel
  have hpipe : s'.pipeline = s.pipeline ++ more := by
    rw [State.pipeline, h.downstream, hmore, State.pipeline, List.append_assoc]
  refine ⟨by rw [hpipe]; exact List.mem_append_left more ht, ?_⟩
  rw [handleRank, handleRank, hpipe, h.downstream, List.idxOf_append_of_mem ht]

/-- Every step of the consumer brings a task on its way closer to being handled. -/
theorem consume_closer (hquiet : Quiet s a) (ht : t ∈ s.pipeline) (hs : consume s a = some s') :
    t ∈ s'.handled ∨ t ∈ s'.pipeline ∧ handleRank t s' < handleRank t s := by
  cases a <;> simp only [consume] at hs <;> try contradiction
  case take =>
    split at hs <;> cases hs <;> rename_i u rest hd hch
    all_goals
      have hpipe : (s.takeTask u rest).pipeline = s.pipeline := by
        simp [State.pipeline, Downstream.held, hd, hch, State.takeTask]
      refine Or.inr ⟨by rwa [hpipe], ?_⟩
      rw [handleRank, handleRank, hpipe]
      simp [State.takeTask, Downstream.wait, hd]
  case handle =>
    split at hs <;> cases hs
    rename_i u hd
    have hpipe : s.pipeline = u :: s.channel := by simp [State.pipeline, Downstream.held, hd]
    by_cases hu : t = u
    · subst hu
      exact Or.inl List.mem_cons_self
    · rw [hpipe] at ht
      refine Or.inr ⟨(List.mem_cons.1 ht).resolve_left hu, ?_⟩
      have hpipe' : State.pipeline { s with
          downstream := .recording u, handled := u :: s.handled } = s.channel := rfl
      rw [handleRank, handleRank, hpipe, hpipe', List.idxOf_cons_ne s.channel (Ne.symm hu)]
      simp only [hd, Downstream.wait]
      omega
  case record result =>
    have hok : result = .ok := hquiet
    subst hok
    split at hs <;> cases hs <;> rename_i u hd
    all_goals
      have hpipe : (s.recordTask u .ok).pipeline = s.pipeline := by
        simp [State.pipeline, Downstream.held, hd, State.recordTask, State.setLatestProcessed]
      refine Or.inr ⟨by rwa [hpipe], ?_⟩
      rw [handleRank, handleRank, hpipe]
      simp [State.recordTask, Downstream.wait, hd]

/-- A task on its way to the consumer finds the component running. -/
theorem running_of_mem_pipeline (h : Exact processed s) (ht : t ∈ s.pipeline) :
    s.running = true := by
  by_contra hno
  have hpushed := (h.fresh (by simpa using hno)).pushed
  rw [h.taken, List.append_eq_nil_iff] at hpushed
  rw [hpushed.2] at ht
  cases ht

theorem helper_enabled {H : Helper} (hok : Smooth s a) (ha : a.helper = some H)
    (hs : (step getChainsLimit s a).isSome) :
    Enabled (when (ofFn (step getChainsLimit)) Smooth) H.labels s :=
  ⟨a, ha, _, hok, (Option.some_get hs).symm⟩

/-- The consumer can go on as long as a task is in the channel or in its hands. -/
theorem consumer_enabled (getChainsLimit : UInt8) (h : s.channel ≠ [] ∨ s.downstream ≠ .idle) :
    Enabled (when (ofFn (step getChainsLimit)) Smooth) Helper.consumer.labels s := by
  cases hd : s.downstream with
  | idle =>
    have hch : s.channel ≠ [] := h.resolve_right (by simp [hd])
    obtain ⟨u, rest, hrest⟩ := List.exists_cons_of_ne_nil hch
    exact helper_enabled (a := .take) ⟨⟨trivial, trivial⟩, trivial⟩ rfl
      (by simp [step, consume, hd, hrest])
  | handling u =>
    exact helper_enabled (a := .handle) ⟨⟨trivial, trivial⟩, trivial⟩ rfl
      (by simp [step, consume, hd])
  | recording u | unrecorded u =>
    exact helper_enabled (a := .record .ok) ⟨⟨rfl, trivial⟩, trivial⟩ rfl
      (by simp [step, consume, hd])

/-- What was pushed is handled. -/
theorem handling (processed : Option TaskItemId) (getChainsLimit : UInt8) (t : TaskItem) :
    Ranking (when (ofFn (step getChainsLimit)) Smooth) Helper.labels
      (fun s => Exact processed s ∧ t ∈ s.pipeline) (fun s => t ∈ s.handled) (handleRank t)
      (fun _ => .consumer) where
  enabled s h _ := by
    refine consumer_enabled getChainsLimit ?_
    by_contra hno
    push Not at hno
    have hnil : s.pipeline = [] := by simp [State.pipeline, Downstream.held, hno.1, hno.2]
    rw [hnil] at h
    cases h.2
  step s a s' h _ hs := by
    obtain ⟨hexact, ht⟩ := h
    have hok : Careful s a := hs.1.1
    have hs : step getChainsLimit s a = some s' := hs.2
    have hexact' := exact_step hexact hok hs
    have hrun := running_of_mem_pipeline hexact ht
    -- whoever else moves leaves the consumer where it is
    have hother : Forward s s' → a.helper ≠ some .consumer →
        t ∈ s'.handled ∨ (Exact processed s' ∧ t ∈ s'.pipeline) ∧
          (handleRank t s' < handleRank t s ∨ handleRank t s' = handleRank t s ∧
            Helper.consumer = Helper.consumer ∧ a ∉ Helper.consumer.labels) := by
      intro hforward ha
      obtain ⟨ht', heq⟩ := hforward.handleRank_eq ht
      exact Or.inr ⟨⟨hexact', ht'⟩, Or.inr ⟨heq, rfl, ha⟩⟩
    rcases helper_cases hrun hok.1 hs with ⟨ha, task, h, rfl⟩ | ⟨ha, hs⟩ | ⟨ha, hs⟩ | ⟨-, hs⟩
    · exact hother ⟨rfl, rfl, rfl, [], (List.append_nil _).symm⟩ (by simp [ha])
    · exact hother (forward_internal hs) (by simp [ha])
    · exact hother (forward_processTaskRequest hs) (by simp [ha])
    · rcases consume_closer hok.1 ht hs with hhandled | ⟨ht', hlt⟩
      · exact Or.inl hhandled
      · exact Or.inr ⟨⟨hexact', ht'⟩, Or.inl hlt⟩

end Handled

/-! ### What is listed is pushed -/

/-- The steps left to the consumer for the task it took last. -/
def Downstream.rest : Downstream → ℕ
  | .idle => 0
  | .recording _ | .unrecorded _ => 1
  | .handling _ => 2

/-- The steps left to the consumer. -/
def State.load (s : State) : ℕ := 3 * s.channel.length + s.downstream.rest

/-- The consumer has nothing left to do. -/
def Drained (s : State) : Prop := s.channel = [] ∧ s.downstream = .idle

instance (s : State) : Decidable (Drained s) := inferInstanceAs (Decidable (_ ∧ _))

/-- The steps of the poller until it spawns a request, once the consumer is through. -/
def Poll.rest (latestQueried : Option TaskItemId) : Poll → ℕ
  | .idle => 4
  | .accepting => 3
  | .read latestProcessedTask => if latestProcessedTask = latestQueried then 2 else 5

/-- The steps until the next task is pushed. -/
def pushRank (s : State) : ℕ :=
  match s.requests with
  | .sending .. :: _ => 0
  | .waiting _ :: _ => 1
  | .setting _ :: _ => s.load + 20
  | [] => if Drained s then s.poll.rest s.latestQueried else s.load + 10

/-- Who has to move for the next task to be pushed. -/
def pushHelper (s : State) : Helper :=
  if s.requests ≠ [] then .request else if Drained s then .poll else .consumer

/-- The tasks in front of a listed one that are still to be pushed. -/
def missing (processed : Option TaskItemId) (t : TaskItem) (s : State) : ℕ :=
  (s.api.after processed).idxOf t - s.pushed.length

section Pushed

variable {processed : Option TaskItemId} {getChainsLimit : UInt8} {s s' : State} {a : Action}
  {t : TaskItem}

/-- A step brings the next push closer, or leaves it to the one who has to move. -/
def Closer (s s' : State) (a : Action) : Prop :=
  pushRank s' < pushRank s ∨
    pushRank s' = pushRank s ∧ pushHelper s' = pushHelper s ∧ a ∉ (pushHelper s).labels

theorem pushRank_of_drained (hreq : s.requests = []) (hd : Drained s) :
    pushRank s = s.poll.rest s.latestQueried := by
  simp [pushRank, hreq, hd]

theorem pushRank_of_loaded (hreq : s.requests = []) (hd : ¬ Drained s) :
    pushRank s = s.load + 10 := by
  simp [pushRank, hreq, hd]

theorem rest_le (c : Option TaskItemId) (p : Poll) : p.rest c ≤ 5 := by
  cases p <;> simp only [Poll.rest]
  case read => split_ifs <;> omega
  all_goals omega

theorem pushRank_le (hreq : s.requests = []) : pushRank s ≤ s.load + 10 := by
  by_cases hd : Drained s
  · have hle := rest_le s.latestQueried s.poll
    rw [pushRank_of_drained hreq hd]
    omega
  · rw [pushRank_of_loaded hreq hd]

/-- A step that leaves everything the rank looks at. -/
theorem closer_of_eq (hreq : s'.requests = s.requests) (hch : s'.channel = s.channel)
    (hd : s'.downstream = s.downstream) (hq : s'.latestQueried = s.latestQueried)
    (hpoll : s'.poll = s.poll ∨ s.requests ≠ [] ∨ ¬ Drained s)
    (ha : a ∉ (pushHelper s).labels) : Closer s s' a := by
  have hdrained : Drained s' ↔ Drained s := by rw [Drained, Drained, hch, hd]
  refine Or.inr ⟨?_, ?_, ha⟩
  · have hload : s'.load = s.load := by rw [State.load, State.load, hch, hd]
    unfold pushRank
    rw [hreq, hload, hq]
    cases hr : s.requests with
    | cons r rs => cases r <;> rfl
    | nil =>
      rcases hpoll with hpoll | hne | hno
      · simp only [hdrained, hpoll]
      · exact absurd hr hne
      · simp only [hdrained, hno, if_false]
  · unfold pushHelper
    rw [hreq]
    simp only [hdrained]

/-- The poller, while the consumer is through and no request is outstanding. -/
theorem closer_internal (hsync : s.requests = [] → s.latestQueried = s.tail) (halone : Alone s a)
    (hserved : Served a) (ha : a.helper = some .poll) (hs : internal s a = some s') :
    Closer s s' a := by
  by_cases hreq : s.requests = []
  swap
  · obtain ⟨-, ⟨p, -, rfl⟩ | ⟨rfl, hpoll, rfl⟩⟩ := internal_cases hs
    · refine closer_of_eq rfl rfl rfl rfl (Or.inr (Or.inl hreq)) ?_
      simp [Helper.labels, pushHelper, hreq, ha]
    · exact absurd (halone rfl hpoll) hreq
  by_cases hd : Drained s
  swap
  · obtain ⟨-, ⟨p, -, rfl⟩ | ⟨rfl, hpoll, rfl⟩⟩ := internal_cases hs
    · refine closer_of_eq rfl rfl rfl rfl (Or.inr (Or.inr hd)) ?_
      simp [Helper.labels, pushHelper, hreq, hd, ha]
    · refine Or.inl ?_
      rw [pushRank_of_loaded hreq hd]
      simp [pushRank, hreq]
  have hprocessed : s.latestProcessed = s.latestQueried := by
    rw [hsync hreq, tail_of_drained hd.1 hd.2]
  have hlt : ∀ p : Poll, s' = { s with poll := p } →
      p.rest s.latestQueried < s.poll.rest s.latestQueried → Closer s s' a := by
    rintro p rfl hlt
    refine Or.inl ?_
    rw [pushRank_of_drained hreq hd]
    exact (pushRank_of_drained (s := { s with poll := p }) hreq hd).trans_lt hlt
  cases a <;> simp only [internal] at hs <;> try contradiction
  case tick =>
    obtain ⟨⟨-, hpoll⟩, hs⟩ := Option.ite_none_right_eq_some.1 hs
    cases hs
    exact hlt .accepting (by simp [hd.1]) (by simp [hpoll, Poll.rest])
  case readProcessed =>
    split at hs <;> cases hs
    rename_i hpoll
    exact hlt _ rfl (by simp [hpoll, Poll.rest, hprocessed])
  case readQueried built =>
    split at hs
    · rename_i c hpoll
      split_ifs at hs with hne hbuilt <;> cases hs
      · exact hlt .idle rfl (by simp [hpoll, Poll.rest, hne])
      · refine Or.inl ?_
        have hc : c = s.latestQueried := not_not.1 hne
        rw [pushRank_of_drained hreq hd]
        simp [pushRank, hreq, hpoll, Poll.rest, hc]
      · simp only [Bool.not_eq_true] at hbuilt
        subst hbuilt
        exact hserved.elim
    · cases hs

theorem load_consume (hquiet : Quiet s a) (hs : consume s a = some s') : s'.load < s.load := by
  cases a <;> simp only [consume] at hs <;> try contradiction
  case take =>
    split at hs <;> cases hs <;> rename_i u rest hd hch
    all_goals
      simp only [State.load, State.takeTask, hd, hch, Downstream.rest, List.length_cons]
      omega
  case handle =>
    split at hs <;> cases hs
    rename_i u hd
    simp [State.load, hd, Downstream.rest]
  case record result =>
    have hok : result = .ok := hquiet
    subst hok
    split at hs <;> cases hs <;> rename_i u hd
    all_goals simp [State.load, State.recordTask, State.setLatestProcessed, hd, Downstream.rest]

theorem not_drained_of_consume (hs : consume s a = some s') : ¬ Drained s := by
  rintro ⟨hch, hd⟩
  cases a <;> simp [consume, hch, hd] at hs

/-- The consumer, whose steps matter while the poller waits for it. -/
theorem closer_consume (hquiet : Quiet s a) (ha : a.helper = some .consumer)
    (hs : consume s a = some s') : Closer s s' a := by
  have hreq := (kept_consume hs).requests
  have hload := load_consume hquiet hs
  cases hr : s.requests with
  | nil =>
    have hle := pushRank_le (hreq.trans hr)
    refine Or.inl ?_
    rw [pushRank_of_loaded hr (not_drained_of_consume hs)]
    omega
  | cons r rs =>
    have hr' := hreq.trans hr
    have hhelper : pushHelper s = .request := by simp [pushHelper, hr]
    have hhelper' : pushHelper s' = .request := by simp [pushHelper, hr']
    have hlabel : a ∉ (pushHelper s).labels := by simp [Helper.labels, hhelper, ha]
    cases r with
    | waiting c =>
      exact Or.inr ⟨by simp [pushRank, hr, hr'], hhelper'.trans hhelper.symm, hlabel⟩
    | sending rest last =>
      exact Or.inr ⟨by simp [pushRank, hr, hr'], hhelper'.trans hhelper.symm, hlabel⟩
    | setting last =>
      refine Or.inl ?_
      simp only [pushRank, hr, hr']
      omega

/-- A listed task that was not pushed is behind everything that was. -/
theorem length_lt_idxOf {x : TaskItem} {pushed : List TaskItem} (more : List TaskItem)
    (ht : t ∉ pushed) (hx : t ≠ x) : pushed.length < (pushed ++ x :: more).idxOf t := by
  rw [List.idxOf_append_of_notMem ht, List.idxOf_cons_ne more (Ne.symm hx)]
  omega

/-- The background task pushes a task, or gets on towards its next push. -/
theorem closer_processTaskRequest (hlimit : 0 < getChainsLimit) (h : Underway processed s)
    (ht : t ∈ s.api.after processed) (hno : t ∉ s.pushed) (hserved : Served a)
    (hs : processTaskRequest getChainsLimit s a = some s') :
    t ∈ s'.pushed ∨ missing processed t s' < missing processed t s ∨
      missing processed t s' = missing processed t s ∧ Closer s s' a := by
  rcases processTaskRequest_cases hs with ⟨i, c, answer, rfl, hi, hans, rfl⟩ |
    ⟨i, c, tasks, last, -, hi, -, -, rfl⟩ | ⟨i, x, rest, last, -, hi, rfl⟩ |
    ⟨i, last, result, -, hi, rfl⟩
  · -- the answer to a request with a task to push is neither an error nor empty
    exfalso
    obtain ⟨rfl, hreq, rfl, hreached, -⟩ := h.exact_of_getElem? hi
    rcases hans with ⟨cause, rfl⟩ | rfl
    · exact hserved
    · have hempty : s.api.getChains s.latestQueried (some getChainsLimit) = [] := by
        simp only [processTaskRequest, hi] at hs
        exact (Option.ite_none_right_eq_some.1 hs).1.symm
      rw [Feed.after_eq_append hreached.2, List.mem_append] at ht
      have hmem : t ∈ s.api.after s.latestQueried := ht.resolve_left hno
      have hpos : 0 < getChainsLimit.toNat := UInt8.lt_iff_toNat_lt.1 hlimit
      simp only [TaskFeed.getChains, List.take_eq_nil_iff] at hempty
      rcases hempty with hzero | hnil
      · omega
      · rw [hnil] at hmem
        cases hmem
  · obtain ⟨rfl, hreq, -⟩ := h.exact_of_getElem? hi
    exact Or.inr (Or.inr ⟨rfl, Or.inl (by simp [pushRank, hreq])⟩)
  · obtain ⟨rfl, hreq, -, hup, -⟩ := h.exact_of_getElem? hi
    by_cases hx : t = x
    · subst hx
      exact Or.inl (by simp)
    · refine Or.inr (Or.inl ?_)
      have hafter := Feed.after_eq_append hup
      have hlt := length_lt_idxOf (rest ++ s.api.after (some last)) hno hx
      simp only [missing, hafter, List.length_append, List.length_singleton, List.append_assoc,
        List.cons_append]
      omega
  · obtain ⟨rfl, hreq, -⟩ := h.exact_of_getElem? hi
    refine Or.inr (Or.inr ⟨rfl, Or.inl ?_⟩)
    have hnil : ((s.setLatestQueried last result).finish 0).requests = [] := by
      simp [State.finish, State.setLatestQueried, hreq]
    refine (pushRank_le hnil).trans_lt ?_
    simp only [pushRank, hreq]
    show s.load + 10 < s.load + 20
    omega

theorem api_processTaskRequest (hs : processTaskRequest getChainsLimit s a = some s') :
    s'.api = s.api := by
  rcases processTaskRequest_cases hs with ⟨_, _, _, -, -, -, rfl⟩ |
    ⟨_, _, _, _, -, -, -, -, rfl⟩ | ⟨_, _, _, _, -, -, rfl⟩ | ⟨_, _, _, -, -, rfl⟩ <;> rfl

theorem sync_of_underway (h : Underway processed s) (hreq : s.requests = []) :
    s.latestQueried = s.tail := by
  rcases h with ⟨-, -, hsync⟩ | ⟨r, hr, -⟩
  · exact hsync
  · rw [hreq] at hr
    cases hr

/-- The poller, the background task or the consumer can go on. -/
theorem pushHelper_enabled (getChainsLimit : UInt8) (h : Underway processed s)
    (hrun : s.running = true) :
    Enabled (when (ofFn (step getChainsLimit)) Smooth) (pushHelper s).labels s := by
  rcases h with ⟨hreq, -, hsync⟩ | ⟨r, hr, hexact⟩
  · by_cases hd : Drained s
    · rw [show pushHelper s = .poll by simp [pushHelper, hreq, hd]]
      cases hpoll : s.poll with
      | idle =>
        exact helper_enabled (a := .tick) ⟨⟨trivial, trivial⟩, trivial⟩ rfl
          (by simp [step, internal, hrun, hpoll])
      | accepting =>
        exact helper_enabled (a := .readProcessed) ⟨⟨trivial, trivial⟩, trivial⟩ rfl
          (by simp [step, internal, hpoll])
      | read c =>
        refine helper_enabled (a := .readQueried true)
          ⟨⟨trivial, fun _ _ => hreq⟩, trivial⟩ rfl ?_
        simp only [step, internal, hpoll]
        split_ifs <;> rfl
    · rw [show pushHelper s = .consumer by simp [pushHelper, hreq, hd]]
      refine consumer_enabled getChainsLimit ?_
      by_contra hno
      push Not at hno
      exact hd hno
  · rw [show pushHelper s = .request by simp [pushHelper, hr]]
    cases r with
    | waiting c =>
      refine helper_enabled (a := .respond 0 (.ok ⟨s.api.getChains c (some getChainsLimit)⟩))
        ⟨⟨trivial, trivial⟩, trivial⟩ rfl ?_
      simp only [step, processTaskRequest, hr, List.getElem?_cons_zero, if_true]
      split <;> rfl
    | sending rest last =>
      obtain ⟨-, -, hrest⟩ := hexact
      obtain _ | ⟨x, rest⟩ := rest
      · cases hrest
      · exact helper_enabled (a := .send 0) ⟨⟨trivial, trivial⟩, trivial⟩ rfl
          (by simp [step, processTaskRequest, hr])
    | setting last =>
      exact helper_enabled (a := .setQueried 0 .ok) ⟨⟨rfl, trivial⟩, trivial⟩ rfl
        (by simp [step, processTaskRequest, hr])

theorem missing_push (h : Exact processed s) (ht : t ∈ s.api.after processed) {task : TaskItem}
    (hnew : task.id ∉ s.api.keys) :
    t ∈ (s.api.push task hnew).after processed ∧
      missing processed t { s with api := s.api.push task hnew } = missing processed t s := by
  have hafter := Feed.after_push hnew h.known
  refine ⟨by rw [hafter]; exact List.mem_append_left _ ht, ?_⟩
  simp only [missing, hafter]
  rw [List.idxOf_append_of_mem ht]

/-- What is listed is pushed: either a task in front of it, or the task itself is next. -/
theorem pushing (hlimit : 0 < getChainsLimit) (processed : Option TaskItemId) (t : TaskItem)
    (v : ℕ) :
    Ranking (when (ofFn (step getChainsLimit)) Smooth) Helper.labels
      (fun s => (Exact processed s ∧ s.running = true ∧ t ∈ s.api.after processed) ∧
        missing processed t s = v)
      (fun s => t ∈ s.pushed ∨ (Exact processed s ∧ s.running = true ∧
        t ∈ s.api.after processed) ∧ missing processed t s < v) pushRank pushHelper where
  enabled s h _ := pushHelper_enabled getChainsLimit (h.1.1.underway h.1.2.1) h.1.2.1
  step s a s' h hno hs := by
    obtain ⟨⟨hexact, hrun, ht⟩, rfl⟩ := h
    obtain ⟨hok, hserved⟩ := hs.1
    have hs : step getChainsLimit s a = some s' := hs.2
    have hnot : t ∉ s.pushed := fun hpushed => hno (Or.inl hpushed)
    have hexact' := exact_step hexact hok hs
    have hrun' := running_step hrun hok.1 hs
    have hunderway := hexact.underway hrun
    rcases helper_cases hrun hok.1 hs with ⟨ha, task, hnew, rfl⟩ | ⟨ha, hs⟩ | ⟨ha, hs⟩ | ⟨ha, hs⟩
    · obtain ⟨ht', hmissing⟩ := missing_push hexact ht hnew
      refine Or.inr ⟨⟨⟨hexact', hrun, ht'⟩, hmissing⟩, ?_⟩
      exact closer_of_eq rfl rfl rfl rfl (Or.inl rfl) (by simp [Helper.labels, ha])
    · have hcloser := closer_internal (sync_of_underway hunderway) hok.2 hserved ha hs
      obtain ⟨-, ⟨p, -, rfl⟩ | ⟨-, -, rfl⟩⟩ := internal_cases hs <;>
        exact Or.inr ⟨⟨⟨hexact', hrun, ht⟩, rfl⟩, hcloser⟩
    · have hapi := api_processTaskRequest hs
      rcases closer_processTaskRequest hlimit hunderway ht hnot hserved hs with hpushed | hless |
        ⟨hsame, hcloser⟩
      · exact Or.inl (Or.inl hpushed)
      · exact Or.inl (Or.inr ⟨⟨hexact', hrun', hapi ▸ ht⟩, hless⟩)
      · exact Or.inr ⟨⟨⟨hexact', hrun', hapi ▸ ht⟩, hsame⟩, hcloser⟩
    · obtain ⟨hapi, -, hpushed, -⟩ := consume_frame hs
      have hmissing : missing processed t s' = missing processed t s := by
        rw [missing, missing, hapi, hpushed]
      exact Or.inr ⟨⟨⟨hexact', hrun', hapi ▸ ht⟩, hmissing⟩, closer_consume hok.1 ha hs⟩

end Pushed

/-- **Every listed task is handled, once and in order.**  A poller that starts after a task the API
has listed, or after none, is neither crashed nor refused by its setters, and spawns its requests
alone: what it has handled is the beginning of what is listed after that task, and once its requests
are answered everything listed there is handled some time, in an execution that is fair to the
poller, its background tasks and the consumer. -/
theorem poller_delivers_all {getChainsLimit : UInt8} (hlimit : 0 < getChainsLimit) {api : TaskFeed}
    {processed queried : Option TaskItemId} (hknown : ∀ k ∈ processed, k ∈ api.keys)
    (hqueried : processed = none → queried = none)
    (ρ : Execution (when (ofFn (step getChainsLimit)) Smooth))
    (h0 : Reach (when (ofFn (step getChainsLimit)) Careful) (boot api processed queried)
      (ρ.state 0)) (hrun : (ρ.state 0).running = true) (hfair : ∀ H : Helper, ρ.FairTo H.labels) :
    (∀ n, (ρ.state n).handled.reverse <+: (ρ.state n).api.after processed) ∧
      ∀ n, ∀ t ∈ (ρ.state n).api.after processed, ∃ m ≥ n, t ∈ (ρ.state m).handled := by
  have hzero : Exact processed (ρ.state 0) :=
    h0.invariant (exact_boot hknown hqueried) fun _ _ _ h hs => exact_step h hs.1 hs.2
  have hexact : ∀ n, Exact processed (ρ.state n) ∧ (ρ.state n).running = true := by
    intro n
    refine ρ.stays (p := fun s => Exact processed s ∧ s.running = true) ?_ (Nat.zero_le n)
      ⟨hzero, hrun⟩
    rintro s a s' ⟨h, hrun⟩ ⟨⟨hok, -⟩, hs⟩
    exact ⟨exact_step h hok hs, running_step hrun hok.1 hs⟩
  refine ⟨fun n => ?_, fun n t ht => ?_⟩
  · obtain ⟨more, hmore⟩ := exists_after_eq (hexact n).1
    rw [hmore, (hexact n).1.taken, List.append_assoc]
    exact List.prefix_append _ _
  · obtain ⟨m, hm, hpushed⟩ := Ranking.leadsTo_of_measure (Q := fun s => t ∈ s.pushed)
      (missing processed t) (pushing hlimit processed t) ρ hfair
      ⟨(hexact n).1, (hexact n).2, ht⟩
    rw [(hexact m).1.taken, List.mem_append, List.mem_reverse] at hpushed
    rcases hpushed with hhandled | hpipe
    · exact ⟨m, hm, hhandled⟩
    · obtain ⟨m', hm', hhandled⟩ := (handling processed getChainsLimit t).leadsTo ρ hfair
        ⟨(hexact m).1, hpipe⟩
      exact ⟨m', hm.trans hm', hhandled⟩

/-! ### A poller that runs for ever -/

/-- The task is listed before the start; the first request fails. -/
def firstFails : List Action :=
  [.listTask onlyTask, .start .ok] ++ poll ++ [.respond 0 (.error (.send .reqwest))]

/-- The task is fetched, sent and handled. -/
def handlesTask : List Action :=
  poll ++ [.respond 0 (.ok ⟨[onlyTask]⟩), .send 0, .setQueried 0 .ok, .take, .handle, .record .ok]

/-- And then every poll is answered without a task. -/
def pollsNothing : List Action := poll ++ [.respond 0 (.ok ⟨[]⟩)]

/-- The task is recorded, and nothing is going on. -/
structure Recorded (s : State) : Prop where
  running : s.running = true
  poll : s.poll = .idle
  requests : s.requests = []
  drained : Drained s
  processed : s.latestProcessed = some onlyTask.id
  queried : s.latestQueried = some onlyTask.id
  api : s.api.entries = [onlyTask]

theorem recorded_pollsNothing {s : State} (h : Recorded s) :
    ∃ s', exec (guarded (step 4) Smooth) s pollsNothing = some s' ∧ Recorded s' := by
  obtain ⟨hrun, hpoll, hreq, hd, hp, hq, hapi⟩ := h
  have hnone : s.api.getChains (some onlyTask.id) (some 4) = [] := by
    simp [TaskFeed.getChains, Feed.after, hapi, Feed.dropUpTo]
  let s₁ : State := { s with poll := .accepting }
  let s₂ : State := { s with poll := .read (some onlyTask.id) }
  let s₃ : State := { s with poll := .idle, requests := [.waiting (some onlyTask.id)] }
  have h₁ : guarded (step 4) Smooth s .tick = some s₁ := by
    refine guarded_eq_some.2 ⟨⟨⟨trivial, trivial⟩, trivial⟩, ?_⟩
    simp [ofFn, step, internal, hrun, hpoll, hd.1, s₁]
  have h₂ : guarded (step 4) Smooth s₁ .readProcessed = some s₂ := by
    refine guarded_eq_some.2 ⟨⟨⟨trivial, trivial⟩, trivial⟩, ?_⟩
    simp [ofFn, step, internal, s₁, s₂, hp]
  have h₃ : guarded (step 4) Smooth s₂ (.readQueried true) = some s₃ := by
    refine guarded_eq_some.2 ⟨⟨⟨trivial, fun _ _ => hreq⟩, trivial⟩, ?_⟩
    simp [ofFn, step, internal, s₂, s₃, hq, hreq]
  have h₄ : guarded (step 4) Smooth s₃ (.respond 0 (.ok ⟨[]⟩)) = some (s₃.finish 0) := by
    refine guarded_eq_some.2 ⟨⟨⟨trivial, trivial⟩, trivial⟩, ?_⟩
    have hans : s₃.api.getChains (some onlyTask.id) (some 4) = [] := hnone
    simp [ofFn, step, processTaskRequest, s₃, hans]
  refine ⟨s₃.finish 0, ?_, hrun, rfl, rfl, hd, hp, hq, hapi⟩
  simp [pollsNothing, poll, exec, h₁, h₂, h₃, h₄]

def pollsForEver {s : State} (h : Recorded s) : Execution (when (ofFn (step 4)) Smooth) :=
  ofCycleWhen (fun _ => recorded_pollsNothing) (by decide) h

theorem fair_pollsForEver {s : State} (h : Recorded s) (H : Helper) :
    (pollsForEver h).FairTo H.labels := by
  refine fairTo_ofCycleWhen _ _ h ?_
  cases H with
  | poll => exact Or.inl ⟨.tick, by simp [pollsNothing, poll], rfl⟩
  | request => exact Or.inl ⟨.respond 0 (.ok ⟨[]⟩), by simp [pollsNothing], rfl⟩
  | consumer =>
    refine Or.inr fun s hs a ha => ?_
    cases a with
    | take | handle | record result => simp [step, consume, hs.drained.1, hs.drained.2]
    | _ => cases ha

/-- The theorem on that run. -/
theorem poller_delivers_all_once :
    ∃ ρ : Execution (when (ofFn (step 4)) Smooth),
      (ρ.state 0).handled = [] ∧ ∃ m, onlyTask ∈ (ρ.state m).handled := by
  obtain ⟨s, hs, hp⟩ := exists_reach_when_of_exec (step 4) Careful init firstFails
    (fun s => s.running && s.handled == [] && s.api.entries == [onlyTask] &&
      (exec (guarded (step 4) Smooth) s handlesTask).any fun s' : State =>
        s'.running && decide (s'.poll = .idle) && s'.requests == [] && s'.channel == [] &&
          decide (s'.downstream = .idle) && s'.latestProcessed == some onlyTask.id &&
          s'.latestQueried == some onlyTask.id && s'.api.entries == [onlyTask]) (by decide)
  simp only [Bool.and_eq_true, beq_iff_eq, decide_eq_true_eq, Option.any_eq_true] at hp
  obtain ⟨⟨⟨hrun, hhandled⟩, hapi⟩, s', hs',
    ⟨⟨⟨⟨⟨⟨hrun', hpoll⟩, hreq⟩, hch⟩, hd⟩, hprocessed⟩, hqueried⟩, hapi'⟩ := hp
  have hend : Recorded s' := ⟨hrun', hpoll, hreq, ⟨hch, hd⟩, hprocessed, hqueried, hapi'⟩
  have hreach : Reach (when (ofFn (step 4)) Smooth) s ((pollsForEver hend).state 0) := by
    rw [pollsForEver, ofCycleWhen_zero]
    exact (reach_of_exec hs').mono fun _ _ _ => guarded_eq_some.1
  obtain ⟨ρ, h0, hfair⟩ := (pollsForEver hend).exists_of_reach hreach
  have hlisted : onlyTask ∈ (ρ.state 0).api.after none := by simp [h0, Feed.after, hapi]
  obtain ⟨-, hall⟩ := poller_delivers_all (by decide) (by simp) (fun _ => rfl) ρ (h0 ▸ hs)
    (h0 ▸ hrun) fun H =>
      Execution.fairTo_iff.2 (hfair _ _ (Execution.fairTo_iff.1 (fair_pollsForEver hend H)))
  obtain ⟨m, -, hm⟩ := hall 0 onlyTask hlisted
  exact ⟨ρ, by rw [h0, hhandled], m, hm⟩

end FromAmplifier
end RelayerCore
