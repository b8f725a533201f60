import RelayerCore.FromAmplifier.Model

/-!
# When a task is handed downstream twice

`internal` looks at the channel and at the cursors, and neither changes before an answer arrives:
a tick during a request spawns a second one for the same tasks.  As long as every request is
spawned with none outstanding, the tasks pushed so far are always a sublist of those up to the
queried cursor, and the answer continues them.

The runs here have no crash and setters that succeed, and start from any listing and any `State`.
-/

namespace RelayerCore
namespace FromAmplifier

open Machine

/-- At most one request is outstanding, and no task was pushed twice. -/
def AtMostOnce (s : State) : Prop := s.requests.length ≤ 1 ∧ s.pushed.Nodup

/-- No crash, and no setter that fails. -/
def Quiet (_ : State) : Action → Prop
  | .crash => False
  | .start result | .setQueried _ result | .record result => result = .ok
  | _ => True

/-- A request is spawned only while none is outstanding. -/
def Alone (s : State) : Action → Prop
  | .readQueried built => built = true → s.poll = .read s.latestQueried → s.requests = []
  | _ => True

instance (s : State) : (a : Action) → Decidable (Quiet s a)
  | .crash => inferInstanceAs (Decidable False)
  | .start result | .setQueried _ result | .record result =>
    inferInstanceAs (Decidable (result = .ok))
  | .listTask _ | .tick | .readProcessed | .readQueried _ | .respond .. | .send _ | .take
  | .handle => inferInstanceAs (Decidable True)

instance (s : State) (a : Action) : Decidable (Alone s a) := by
  unfold Alone
  split <;> infer_instance

/-- The tasks pushed so far are listed, in order, at or before the cursor. -/
def Passed (api : TaskFeed) (pushed : List TaskItem) (c : Option TaskItemId) : Prop :=
  pushed.Sublist (api.upTo c) ∧ (pushed = [] ∨ ∀ k ∈ c, k ∈ api.keys)

/-- What the outstanding request will push continues what was pushed. -/
def Request.Continues (s : State) : Request → Prop
  | .waiting after => after = s.latestQueried ∧ Passed s.api s.pushed after
  | .sending rest last => Passed s.api (s.pushed ++ rest) (some last)
  | .setting last => Passed s.api s.pushed (some last)

/-- The invariant of the runs whose requests are alone. -/
structure Single (s : State) : Prop where
  stopped : s.running = false → Stopped s ∧ s.pushed = []
  requests : (s.requests = [] ∧ Passed s.api s.pushed s.latestQueried) ∨
    ∃ r, s.requests = [r] ∧ r.Continues s

section Passed

variable {api : TaskFeed} {pushed : List TaskItem} {c : Option TaskItemId}

theorem passed_nil : Passed api [] c := ⟨List.nil_sublist _, Or.inl rfl⟩

theorem Passed.push (h : Passed api pushed c) {t : TaskItem} (ht : t.id ∉ api.keys) :
    Passed (api.push t ht) pushed c := by
  obtain ⟨hsub, rfl | hknown⟩ := h
  · exact passed_nil
  · refine ⟨?_, Or.inr fun k hk => ?_⟩
    · rw [Feed.upTo_push ht hknown]
      exact hsub
    · have := hknown k hk
      simp only [Feed.keys, Feed.push_entries, List.map_append, List.mem_append] at this ⊢
      exact Or.inl this

/-- The tasks after the cursor come after everything passed. -/
theorem Passed.append (h : Passed api pushed c) {n : ℕ} {last : TaskItem}
    (hlast : ((api.after c).take n).getLast? = some last) :
    Passed api (pushed ++ (api.after c).take n) (some last.id) := by
  obtain ⟨hup, hmem⟩ := Feed.upTo_last_take_after hlast
  refine ⟨?_, Or.inr ?_⟩
  · rw [hup]
    exact h.1.append_right _
  · rintro k ⟨⟩
    exact hmem

theorem Passed.nodup (h : Passed api pushed c) : pushed.Nodup :=
  ((List.Nodup.of_map TaskItem.id api.nodup).sublist (api.upTo_sublist c)).sublist h.1

theorem Passed.of_append {rest : List TaskItem} (h : Passed api (pushed ++ rest) c) :
    Passed api pushed c := by
  refine ⟨(List.sublist_append_left _ _).trans h.1, h.2.imp_left fun hnil => ?_⟩
  exact (List.append_eq_nil_iff.1 hnil).1

end Passed

variable {s s' : State} {getChainsLimit : UInt8}

theorem atMostOnce_of_single (h : Single s) : AtMostOnce s := by
  rcases h.requests with ⟨hnil, hpass⟩ | ⟨r, hone, hcont⟩
  · exact ⟨by simp [hnil], hpass.nodup⟩
  · refine ⟨by simp [hone], ?_⟩
    cases r with
    | waiting c => exact hcont.2.nodup
    | sending rest last => exact (Passed.of_append hcont).nodup
    | setting last => exact Passed.nodup hcont

theorem single_boot (api : TaskFeed) (processed queried : Option TaskItemId) :
    Single (boot api processed queried) :=
  ⟨fun _ => ⟨stopped_boot api processed queried, rfl⟩, Or.inl ⟨rfl, passed_nil⟩⟩

/-- The only request is the first one. -/
theorem eq_of_getElem?_single {r q : Request} {i : ℕ} (h : [r][i]? = some q) : i = 0 ∧ r = q := by
  cases i with
  | zero => exact ⟨rfl, by simpa using h⟩
  | succ i => simp at h

theorem single_processTaskRequest {a : Action} (h : Single s) (hquiet : Quiet s a)
    (hs : processTaskRequest getChainsLimit s a = some s') : Single s' := by
  have hrun := running_of_moved getChainsLimit (fun hno => (h.stopped hno).1) (Or.inr (Or.inl hs))
  refine ⟨fun hno => absurd hno (by simp [hrun.2]), ?_⟩
  -- the request that moves is the only one
  have hone : ∀ {i : ℕ} {q : Request}, s.requests[i]? = some q →
      i = 0 ∧ s.requests = [q] ∧ q.Continues s := by
    intro i q hi
    rcases h.requests with ⟨hnil, -⟩ | ⟨r, hr, hcont⟩
    · simp [hnil] at hi
    · rw [hr] at hi
      obtain ⟨rfl, rfl⟩ := eq_of_getElem?_single hi
      exact ⟨rfl, hr, hcont⟩
  rcases processTaskRequest_cases hs with ⟨i, c, answer, -, hi, -, rfl⟩ |
    ⟨i, c, tasks, last, -, hi, hans, hlast, rfl⟩ | ⟨i, t, rest, last, -, hi, rfl⟩ |
    ⟨i, last, result, rfl, hi, rfl⟩
  · obtain ⟨rfl, hreq, rfl, hpass⟩ := hone hi
    exact Or.inl ⟨by simp [State.finish, hreq], hpass⟩
  · obtain ⟨rfl, hreq, rfl, hpass⟩ := hone hi
    refine Or.inr ⟨.sending tasks last.id, by simp [hreq], ?_⟩
    obtain ⟨n, hn⟩ := s.api.getChains_eq_take s.latestQueried (some getChainsLimit)
    rw [hans, hn] at hlast ⊢
    exact hpass.append hlast
  · obtain ⟨rfl, hreq, hpass⟩ := hone hi
    have hpass : Passed s.api ((s.pushed ++ [t]) ++ rest) (some last) := by
      simpa [Request.Continues] using hpass
    by_cases hrest : rest = []
    · subst hrest
      rw [List.append_nil] at hpass
      exact Or.inr ⟨.setting last, by simp [hreq], hpass⟩
    · exact Or.inr ⟨.sending rest last, by simp [hreq, hrest], hpass⟩
  · obtain ⟨rfl, hreq, hpass⟩ := hone hi
    have hok : result = .ok := hquiet
    subst hok
    exact Or.inl ⟨by simp [State.finish, State.setLatestQueried, hreq], hpass⟩

theorem Request.Continues.listTask {r : Request} (h : r.Continues s) {t : TaskItem}
    (ht : t.id ∉ s.api.keys) : r.Continues { s with api := s.api.push t ht } := by
  cases r with
  | waiting c => exact ⟨h.1, h.2.push ht⟩
  | sending rest last => exact Passed.push h ht
  | setting last => exact Passed.push h ht

/-- The consumer's steps concern neither the requests nor what was pushed. -/
theorem consume_frame {a : Action} (hs : consume s a = some s') :
    s'.api = s.api ∧ s'.requests = s.requests ∧ s'.pushed = s.pushed ∧
      s'.latestQueried = s.latestQueried := by
  cases a <;> simp only [consume] at hs <;> try contradiction
  all_goals split at hs <;> cases hs <;> exact ⟨rfl, rfl, rfl, rfl⟩

theorem single_step {a : Action} (h : Single s) (hquiet : Quiet s a) (halone : Alone s a)
    (hs : step getChainsLimit s a = some s') : Single s' := by
  have hstop : s.running = false → Stopped s := fun hno => (h.stopped hno).1
  have hstop' := stopped_step hstop hs
  rcases step_cases hs with ⟨t, ht, rfl⟩ | ⟨result, rfl, hno, rfl⟩ | ⟨rfl, -⟩ | hs | hs | hs
  · -- a listed task is behind everything passed
    refine ⟨fun hno => ⟨hstop' hno, (h.stopped hno).2⟩, ?_⟩
    rcases h.requests with ⟨hnil, hpass⟩ | ⟨r, hr, hcont⟩
    · exact Or.inl ⟨hnil, hpass.push ht⟩
    · exact Or.inr ⟨r, hr, hcont.listTask ht⟩
  · -- nothing has been pushed before the start
    obtain ⟨⟨-, hreq, -, -⟩, hpushed⟩ := h.stopped hno
    unfold startProcess at hstop' ⊢
    cases hp : s.latestProcessed with
    | none =>
      rw [hp] at hstop'
      refine ⟨fun hno => ⟨hstop' hno, hpushed⟩, Or.inl ⟨hreq, ?_⟩⟩
      rw [hpushed]
      exact passed_nil
    | some id =>
      rw [hp] at hstop'
      refine ⟨fun hno => ⟨hstop' hno, hpushed⟩, Or.inl ⟨hreq, ?_⟩⟩
      show Passed s.api s.pushed _
      rw [hpushed]
      exact passed_nil
  · exact hquiet.elim
  · have hrun := running_of_moved getChainsLimit hstop (Or.inl hs)
    refine ⟨fun hno => absurd hno (by simp [hrun.2]), ?_⟩
    obtain ⟨-, ⟨p, -, rfl⟩ | ⟨rfl, hpoll, rfl⟩⟩ := internal_cases hs
    · rcases h.requests with hnil | ⟨r, hr, hcont⟩
      · exact Or.inl hnil
      · refine Or.inr ⟨r, hr, ?_⟩
        cases r <;> exact hcont
    · -- the new request is alone
      have hnil : s.requests = [] := halone rfl hpoll
      rcases h.requests with ⟨-, hpass⟩ | ⟨r, hr, -⟩
      · exact Or.inr ⟨.waiting s.latestQueried, by simp [hnil], rfl, hpass⟩
      · rw [hnil] at hr
        cases hr
  · exact single_processTaskRequest h hquiet hs
  · have hrun := running_of_moved getChainsLimit hstop (Or.inr (Or.inr hs))
    obtain ⟨hapi, hreq, hpushed, hq⟩ := consume_frame hs
    refine ⟨fun hno => absurd hno (by simp [hrun.2]), ?_⟩
    rw [hapi, hreq, hpushed, hq]
    rcases h.requests with hnil | ⟨r, hr, hcont⟩
    · exact Or.inl hnil
    · refine Or.inr ⟨r, hr, ?_⟩
      cases r <;> simpa [Request.Continues, hapi, hpushed, hq] using hcont

/-- A request spawned while another is outstanding makes two. -/
theorem not_atMostOnce_of_not_alone {a : Action} (hs : step getChainsLimit s a = some s')
    (hno : ¬ Alone s a) : ¬ AtMostOnce s' := by
  cases a with
  | readQueried built =>
    obtain ⟨hbuilt, hno⟩ := Classical.not_imp.1 hno
    obtain ⟨hpoll, hne⟩ := Classical.not_imp.1 hno
    have hs : internal s (.readQueried built) = some s' := hs
    simp only [internal, hpoll, hbuilt, ne_eq, not_true_eq_false, if_false, if_true,
      Option.some.injEq] at hs
    subst hs
    intro hone
    have hle := hone.1
    have hpos := List.length_pos_iff.2 hne
    simp only [List.length_append, List.length_singleton] at hle
    omega
  | _ => exact absurd trivial hno

/-- **No task is pushed twice exactly when every request is spawned alone.** A run without a crash
and with setters that succeed has at most one request outstanding and no task pushed twice in all
its states, if and only if every request is spawned while none is outstanding. -/
theorem poller_pushes_once_iff_alone {api : TaskFeed} {processed queried : Option TaskItemId}
    {tr : List (State × Action)}
    (h : Run (when (ofFn (step getChainsLimit)) Quiet) (boot api processed queried) tr s) :
    (∀ t ∈ visited tr s, AtMostOnce t) ↔ ∀ p ∈ tr, Alone p.1 p.2 := by
  refine h.forall_visited_iff ⟨by simp [boot], by simp [boot]⟩ (fun s hr => ?_) ?_
  · refine atMostOnce_of_single (hr.invariant (single_boot api processed queried) ?_)
    rintro s a s' hs ⟨halone, hquiet, hstep⟩
    exact single_step hs hquiet halone hstep
  · intro s a s' _ hno hs
    exact not_atMostOnce_of_not_alone hs.2 hno

/-! ### Two ticks before the first answer -/

/-- A tick that ends in a request. -/
def poll : List Action := [.tick, .readProcessed, .readQueried true]

def onlyListed : TaskItem := ⟨⟨1⟩, ⟨5, 0⟩, .gatewayTx ⟨[]⟩⟩

theorem poller_pushes_task_twice :
    (∃ s, Reach (when (ofFn (step 4)) Quiet) init s ∧ s.requests.length = 2) ∧
      ∃ s, Reach (when (ofFn (step 4)) Quiet) init s ∧ s.pushed = [onlyListed, onlyListed] := by
  constructor
  · obtain ⟨s, hs, hp⟩ := exists_reach_when_of_exec (step 4) Quiet init
      ([.start .ok] ++ poll ++ poll) (fun s => s.requests.length == 2) (by decide)
    exact ⟨s, hs, by simpa using hp⟩
  · obtain ⟨s, hs, hp⟩ := exists_reach_when_of_exec (step 4) Quiet init
      ([.start .ok, .listTask onlyListed] ++ poll ++ poll ++ [.respond 0 (.ok ⟨[onlyListed]⟩),
        .send 0, .setQueried 0 .ok, .respond 0 (.ok ⟨[onlyListed]⟩), .send 0])
      (fun s => s.pushed == [onlyListed, onlyListed]) (by decide)
    exact ⟨s, hs, by simpa using hp⟩

/-- A poll after the first batch is recorded. -/
def pollTwice : List Action :=
  [.start .ok, .listTask onlyListed] ++ poll ++ [.respond 0 (.ok ⟨[onlyListed]⟩), .send 0,
    .setQueried 0 .ok, .take, .handle, .record .ok] ++ poll

/-- The theorem on a run that polls again after its first batch is recorded. -/
theorem poller_pushes_once_two_polls :
    ∃ (tr : List (State × Action)) (s : State), tr.map Prod.snd = pollTwice.reverse ∧
      ∀ t ∈ visited tr s, AtMostOnce t := by
  obtain ⟨tr, s, hr, hok, htr⟩ := exists_run_of_exec (guarded (step 4) Quiet) Alone init
    pollTwice (by decide)
  have hrun : Run (when (ofFn (step 4)) Quiet) init tr s :=
    hr.mono fun _ _ _ => guarded_eq_some.1
  exact ⟨tr, s, htr, (poller_pushes_once_iff_alone hrun).2 hok⟩

end FromAmplifier
end RelayerCore
