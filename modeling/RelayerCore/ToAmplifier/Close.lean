import RelayerCore.ToAmplifier.Model

/-!
# The end of the channel

Every command is received before `process` ends, and each of its tasks is then over.  But a task
that is still running when `process` finds the channel closed is aborted, and no other task is: the
abort mark of a running task agrees with the end of the receiver in every state.
-/

namespace RelayerCore
namespace ToAmplifier

open Machine

/-- What became of the request of a command. -/
def Progress.request : Progress → Except AmplifierApiError AmplifierRequest
  | .refused err => .error err
  | .running request _ | .finished request _ | .cancelled request => .ok request

/-- The request of a command. -/
def AmplifierApiClient.requestOf (client : AmplifierApiClient) (chain : String) :
    AmplifierCommand → Except AmplifierApiError AmplifierRequest
  | .publishEvents events => client.buildRequest ⟨.new chain, events⟩

/-- The POST was driven to a response, or to the error of the transport. -/
def Job.Driven (job : Job) : Prop := ∃ request result, job.progress = .finished request result

/-- No command is lost: at the end each one has been driven, and no request is ever cancelled. -/
structure LosesNone (s : State) : Prop where
  driven : s.phase = .ended → ∀ job ∈ s.jobs, job.Driven
  kept : ∀ job ∈ s.jobs, ∀ request, job.progress ≠ .cancelled request

/-- At one of its steps, the first that found the channel closed, `process` found the task of
command `i` running. -/
def RunningAtClose (tr : List (State × Action)) (i : ℕ) (request : AmplifierRequest) : Prop :=
  ∃ p ∈ tr, p.2 = .poll ∧ p.1.senders = false ∧ p.1.queue = [] ∧ p.1.terminated = false ∧
    ∃ job, p.1.jobs[i]? = some job ∧ job.progress = .running request false

/-- What the component accounts for at the end of a run. -/
structure Accounts (client : AmplifierApiClient) (chain : String) (tr : List (State × Action))
    (s : State) : Prop where
  received : s.jobs.map Job.command ++ s.queue = s.sent
  request : ∀ job ∈ s.jobs, job.progress.request = client.requestOf chain job.command
  ended : s.phase = .ended → s.senders = false ∧ s.queue = [] ∧ ∀ job ∈ s.jobs, job.Driven ∨
    (∃ err, job.progress = .refused err) ∨ ∃ request, job.progress = .cancelled request
  cancelled : ∀ (i : ℕ) (job : Job) (request : AmplifierRequest), s.jobs[i]? = some job →
    job.progress = .cancelled request → RunningAtClose tr i request

/-! ### The invariant -/

/-- A job, before or after the end of the receiver. -/
structure Job.Ok (client : AmplifierApiClient) (chain : String) (terminated : Bool) (job : Job) :
    Prop where
  request : job.progress.request = client.requestOf chain job.command
  refused : ∀ err, job.progress = .refused err → job.inSet = false
  running : ∀ request aborted, job.progress = .running request aborted →
    aborted = terminated ∧ job.inSet = true
  cancelled : ∀ request, job.progress = .cancelled request → terminated = true

structure Inv (client : AmplifierApiClient) (chain : String) (s : State) : Prop where
  received : s.jobs.map Job.command ++ s.queue = s.sent
  jobs : ∀ job ∈ s.jobs, job.Ok client chain s.terminated
  drained : s.terminated = true → s.queue = [] ∧ s.senders = false
  ended : s.phase = .ended → s.terminated = true ∧ ∀ job ∈ s.jobs, job.inSet = false

variable {client : AmplifierApiClient} {chain : String} {s s' : State} {a : Action}

theorem internal_of_error {command : AmplifierCommand} {err : AmplifierApiError}
    (h : client.requestOf chain command = .error err) :
    internal client chain command = ⟨command, .refused err, false⟩ := by
  cases command with
  | publishEvents events =>
    unfold AmplifierApiClient.requestOf at h
    simp only [internal, h]

theorem internal_of_ok {command : AmplifierCommand} {request : AmplifierRequest}
    (h : client.requestOf chain command = .ok request) :
    internal client chain command = ⟨command, .running request false, true⟩ := by
  cases command with
  | publishEvents events =>
    unfold AmplifierApiClient.requestOf at h
    simp only [internal, h]

/-- The job of a command just received, before the end of the receiver. -/
theorem ok_internal (client : AmplifierApiClient) (chain : String) (command : AmplifierCommand) :
    (internal client chain command).Ok client chain false ∧
      (internal client chain command).command = command := by
  cases h : client.requestOf chain command with
  | error err =>
    rw [internal_of_error h]
    exact ⟨⟨h.symm, fun _ _ => rfl, fun _ _ hrun => (by cases hrun), fun _ hcan => (by cases hcan)⟩,
      rfl⟩
  | ok request =>
    rw [internal_of_ok h]
    refine ⟨⟨h.symm, fun _ href => (by cases href), fun _ _ hrun => ?_,
      fun _ hcan => (by cases hcan)⟩, rfl⟩
    cases hrun
    exact ⟨rfl, rfl⟩

/-- An abort marks the running tasks and leaves the others as they are. -/
theorem Job.Ok.abort {terminated : Bool} {job : Job} (h : job.Ok client chain terminated) :
    Job.Ok client chain true { job with progress := job.progress.abort } := by
  obtain ⟨command, progress, inSet⟩ := job
  refine ⟨?_, fun err href => ?_, fun request aborted hrun => ?_, fun _ _ => rfl⟩
  · cases progress <;> exact h.request
  · cases progress with
    | refused err' => exact h.refused err' rfl
    | running request' aborted' => cases href
    | finished request' result => cases href
    | cancelled request' => cases href
  · cases progress with
    | running request' aborted' =>
      cases hrun
      exact ⟨rfl, (h.running request aborted' rfl).2⟩
    | refused err => cases hrun
    | finished request' result => cases hrun
    | cancelled request' => cases hrun

theorem command_setJob {i : ℕ} {job job' : Job} (hi : s.jobs[i]? = some job)
    (hcommand : job'.command = job.command) :
    (s.setJob i job').jobs.map Job.command = s.jobs.map Job.command := by
  obtain ⟨hlt, rfl⟩ := List.getElem?_eq_some_iff.mp hi
  show (s.jobs.set i job').map Job.command = _
  have hlt' : i < (s.jobs.map Job.command).length := by simpa using hlt
  have hget : job'.command = (s.jobs.map Job.command)[i] := by rw [hcommand, List.getElem_map]
  rw [List.map_set, hget, List.set_getElem_self]

/-- One job changes, and nothing else. -/
theorem Inv.setJob (h : Inv client chain s) {i : ℕ} {job job' : Job}
    (hi : s.jobs[i]? = some job) (hcommand : job'.command = job.command)
    (hok : job'.Ok client chain s.terminated) (hset : job.inSet = false → job'.inSet = false) :
    Inv client chain (s.setJob i job') := by
  have hmem : job ∈ s.jobs := List.mem_of_getElem? hi
  refine ⟨?_, fun k hk => ?_, h.drained, fun hend => ⟨(h.ended hend).1, fun k hk => ?_⟩⟩
  · rw [command_setJob hi hcommand]
    exact h.received
  · rcases List.mem_or_eq_of_mem_set hk with hk | rfl
    · exact h.jobs k hk
    · exact hok
  · rcases List.mem_or_eq_of_mem_set hk with hk | rfl
    · exact (h.ended hend).2 k hk
    · exact hset ((h.ended hend).2 job hmem)

theorem inv_init : Inv client chain init :=
  ⟨rfl, by simp [init], by simp [init], by simp [init]⟩

theorem inv_step (h : Inv client chain s) (hs : step client chain s a = some s') :
    Inv client chain s' := by
  cases step_eq_some.mp hs with
  | send command hopen =>
    refine ⟨?_, h.jobs, fun hterm => ?_, h.ended⟩
    · rw [← List.append_assoc, h.received]
    · rw [(h.drained hterm).2] at hopen
      cases hopen
  | close => exact ⟨h.received, h.jobs, fun hterm => ⟨(h.drained hterm).1, rfl⟩, h.ended⟩
  | receive command rest hphase hqueue =>
    -- the receiver still had a command, so it had not terminated
    have hterm : s.terminated = false := by
      by_contra hno
      have hnil := (h.drained (by simpa using hno)).1
      rw [hqueue] at hnil
      cases hnil
    obtain ⟨hok, hcommand⟩ := ok_internal client chain command
    refine ⟨?_, fun job hjob => ?_, fun hterm' => ?_, fun hend => ?_⟩
    · have hrec := h.received
      rw [hqueue] at hrec
      rw [List.map_append, List.append_assoc, ← hrec]
      simp [hcommand]
    · rcases List.mem_append.mp hjob with hjob | hjob
      · exact h.jobs job hjob
      · rw [List.mem_singleton.mp hjob]
        show Job.Ok client chain s.terminated _
        rw [hterm]
        exact hok
    · cases hterm.symm.trans hterm'
    · cases hphase.symm.trans hend
  | pending hphase hqueue hopen =>
    exact ⟨h.received, h.jobs, h.drained, fun hend => by cases hend⟩
  | closed hphase hqueue hopen =>
    refine ⟨?_, fun job hjob => ?_, fun _ => ⟨hqueue, hopen⟩, fun hend => by cases hend⟩
    · show (s.jobs.map fun job => { job with progress := job.progress.abort }).map Job.command ++ _ = _
      rw [List.map_map]
      exact h.received
    · obtain ⟨job', hjob', rfl⟩ := List.mem_map.mp hjob
      exact (h.jobs job' hjob').abort
  | collect i job hphase hi hset hready =>
    have hok := h.jobs job (List.mem_of_getElem? hi)
    have hinv : Inv client chain (s.setJob i { job with inSet := false }) := by
      refine h.setJob hi rfl ⟨hok.request, fun _ _ => rfl, fun request aborted hrun => ?_,
        hok.cancelled⟩ fun _ => rfl
      have hrun' : job.progress = .running request aborted := hrun
      rw [hrun'] at hready
      cases hready
    exact ⟨hinv.received, hinv.jobs, hinv.drained, fun hend => by cases hend⟩
  | finish hphase hterm hempty =>
    exact ⟨h.received, h.jobs, h.drained, fun _ => ⟨hterm, hempty⟩⟩
  | wait hphase hmore =>
    exact ⟨h.received, h.jobs, h.drained, fun hend => by cases hend⟩
  | execute i execution job request aborted hi hrun =>
    have hok := h.jobs job (List.mem_of_getElem? hi)
    refine h.setJob hi rfl ⟨?_, fun _ hno => (by cases hno), fun _ _ hno => (by cases hno),
      fun _ hno => (by cases hno)⟩ fun hin => hin
    rw [← hok.request, hrun]
    rfl
  | cancel i job request hi hrun =>
    have hok := h.jobs job (List.mem_of_getElem? hi)
    refine h.setJob hi rfl ⟨?_, fun _ hno => (by cases hno), fun _ _ hno => (by cases hno),
      fun _ _ => ?_⟩ fun hin => hin
    · rw [← hok.request, hrun]
      rfl
    · exact (hok.running request true hrun).1.symm

theorem inv_of_reach (h : Reach (ofFn (step client chain)) init s) : Inv client chain s :=
  h.invariant inv_init fun _ _ _ hinv hs => inv_step hinv hs

/-! ### What is cancelled -/

/-- The task of command `i` is aborted or cancelled. -/
def Aborted (s : State) (i : ℕ) (request : AmplifierRequest) : Prop :=
  ∃ job, s.jobs[i]? = some job ∧
    (job.progress = .running request true ∨ job.progress = .cancelled request)

theorem aborted_setJob {i k : ℕ} {job' : Job} {request : AmplifierRequest}
    (hab : Aborted (s.setJob k job') i request) : Aborted s i request ∨
      i = k ∧ (job'.progress = .running request true ∨ job'.progress = .cancelled request) := by
  obtain ⟨job, hi, hab⟩ := hab
  by_cases hik : i = k
  · refine Or.inr ⟨hik, ?_⟩
    have hmem : (s.jobs.set k job')[k]? = some job := hik ▸ hi
    rw [List.getElem?_set_self' ] at hmem
    obtain ⟨_, -, rfl⟩ := Option.map_eq_some_iff.mp hmem
    exact hab
  · refine Or.inl ⟨job, ?_, hab⟩
    rw [← hi]
    exact (List.getElem?_set_ne (Ne.symm hik)).symm

/-- What an abort leaves aborted or cancelled was cancelled before, or running. -/
theorem Progress.of_abort {p : Progress} {request : AmplifierRequest}
    (h : p.abort = .running request true ∨ p.abort = .cancelled request) :
    p = .cancelled request ∨ ∃ aborted, p = .running request aborted := by
  cases p with
  | running request' aborted =>
    rcases h with h | h
    · cases h
      exact Or.inr ⟨aborted, rfl⟩
    · cases h
  | cancelled request' =>
    rcases h with h | h
    · cases h
    · exact Or.inl h
  | refused err => rcases h with h | h <;> cases h
  | finished request' result => rcases h with h | h <;> cases h

/-- A step aborts a task only by finding the channel closed for the first time. -/
theorem aborted_step (h : Inv client chain s) (hs : step client chain s a = some s') {i : ℕ}
    {request : AmplifierRequest} (hab : Aborted s' i request) :
    Aborted s i request ∨ a = .poll ∧ s.senders = false ∧ s.queue = [] ∧ s.terminated = false ∧
      ∃ job, s.jobs[i]? = some job ∧ job.progress = .running request false := by
  obtain ⟨job', hi', hab⟩ := hab
  cases step_eq_some.mp hs with
  | send command hopen | close | pending | finish | wait => exact Or.inl ⟨job', hi', hab⟩
  | receive command rest hphase hqueue =>
    by_cases hlt : i < s.jobs.length
    · rw [List.getElem?_append_left hlt] at hi'
      exact Or.inl ⟨job', hi', hab⟩
    · -- the new task is neither aborted nor cancelled
      have hmem : job' ∈ [internal client chain command] := by
        rw [List.getElem?_append_right (Nat.le_of_not_lt hlt)] at hi'
        exact List.mem_of_getElem? hi'
      have hok := (ok_internal client chain command).1
      rw [← List.mem_singleton.mp hmem] at hok
      rcases hab with hrun | hcan
      · cases (hok.running request true hrun).1
      · cases hok.cancelled request hcan
  | closed hphase hqueue hopen =>
    have hi'' : (s.jobs[i]?).map (fun job => { job with progress := job.progress.abort }) =
        some job' := by
      rw [← List.getElem?_map]
      exact hi'
    obtain ⟨job, hi, rfl⟩ := Option.map_eq_some_iff.mp hi''
    rcases Progress.of_abort hab with hcan | ⟨aborted, hrun⟩
    · exact Or.inl ⟨job, hi, Or.inr hcan⟩
    · have hterm := ((h.jobs job (List.mem_of_getElem? hi)).running request aborted hrun).1
      cases aborted with
      | true => exact Or.inl ⟨job, hi, Or.inl hrun⟩
      | false => exact Or.inr ⟨rfl, hopen, hqueue, hterm.symm, job, hi, hrun⟩
  | collect k job hphase hk hset hready =>
    rcases aborted_setJob ⟨job', hi', hab⟩ with hab | ⟨rfl, hab⟩
    · exact Or.inl hab
    · exact Or.inl ⟨job, hk, hab⟩
  | execute k execution job request' aborted hk hrun =>
    rcases aborted_setJob ⟨job', hi', hab⟩ with hab | ⟨rfl, hfin | hfin⟩
    · exact Or.inl hab
    · cases hfin
    · cases hfin
  | cancel k job request' hk hrun =>
    rcases aborted_setJob ⟨job', hi', hab⟩ with hab | ⟨rfl, hcan | hcan⟩
    · exact Or.inl hab
    · cases hcan
    · cases hcan
      exact Or.inl ⟨job, hk, Or.inl hrun⟩

/-- In a run, the aborted tasks are those that were running when the channel was found closed. -/
theorem runningAtClose_of_run {tr : List (State × Action)}
    (h : Run (ofFn (step client chain)) init tr s) {i : ℕ} {request : AmplifierRequest}
    (hab : Aborted s i request) : RunningAtClose tr i request := by
  induction h with
  | nil =>
    obtain ⟨job, hi, -⟩ := hab
    cases hi
  | @snoc tr s s' a hr hs ih =>
    rcases aborted_step (inv_of_reach hr.reach) hs hab with hab | hclose
    · obtain ⟨p, hp, hclose⟩ := ih hab
      exact ⟨p, List.mem_cons_of_mem _ hp, hclose⟩
    · exact ⟨(s, a), List.mem_cons_self, hclose⟩

/-- A job whose task is not in the set any more is over. -/
theorem Job.Ok.over {terminated : Bool} {job : Job} (h : job.Ok client chain terminated)
    (hset : job.inSet = false) : job.Driven ∨
      (∃ err, job.progress = .refused err) ∨ ∃ request, job.progress = .cancelled request := by
  cases hp : job.progress with
  | refused err => exact Or.inr (Or.inl ⟨err, rfl⟩)
  | running request aborted =>
    rw [(h.running request aborted hp).2] at hset
    cases hset
  | finished request result => exact Or.inl ⟨request, result, hp⟩
  | cancelled request => exact Or.inr (Or.inr ⟨request, rfl⟩)

/-- A task of the set that is not over is still running. -/
theorem Job.Ok.running_of_not_ready {terminated : Bool} {job : Job}
    (h : job.Ok client chain terminated) (hset : job.inSet = true)
    (hready : job.progress.ready = false) :
    ∃ request aborted, job.progress = .running request aborted := by
  cases hp : job.progress with
  | refused err =>
    rw [h.refused err hp] at hset
    cases hset
  | running request aborted => exact ⟨request, aborted, rfl⟩
  | finished request result =>
    rw [hp] at hready
    cases hready
  | cancelled request =>
    rw [hp] at hready
    cases hready

/-- **Closing the channel costs only the requests that are still running.** In every run all
commands are received before `process` ends; by then each has been driven, unless its request could
not be built or was cancelled, and a request is cancelled only if it was running when `process`
found the channel closed. -/
theorem process_accounts_for_commands {tr : List (State × Action)}
    (h : Run (ofFn (step client chain)) init tr s) : Accounts client chain tr s := by
  have hinv := inv_of_reach h.reach
  refine ⟨hinv.received, fun job hjob => (hinv.jobs job hjob).request, fun hend => ?_,
    fun i job request hi hcan => runningAtClose_of_run h ⟨job, hi, Or.inr hcan⟩⟩
  obtain ⟨hterm, hempty⟩ := hinv.ended hend
  obtain ⟨hnil, hopen⟩ := hinv.drained hterm
  exact ⟨hopen, hnil, fun job hjob => (hinv.jobs job hjob).over (hempty job hjob)⟩

/-- A client whose requests carry no events, and whose answers report none. -/
def emptyClient : AmplifierApiClient where
  path request := .ok ("https://localhost/chains/" ++ request.chain.val ++ "events")
  toVec _ := .ok "\x7b\"events\":[]\x7d".toUTF8.toList
  fromSlice _ := some ⟨[]⟩
  fromSliceError _ := none

/-- The API answers before the channel is closed. -/
theorem process_accounts_for_answered_command :
    ∃ tr s, Run (ofFn (step emptyClient "solana")) init tr s ∧ s.phase = .ended ∧
      s.sent = [.publishEvents ⟨[]⟩] ∧ Accounts emptyClient "solana" tr s := by
  have hexec : (exec (step emptyClient "solana") init
      [.send (.publishEvents ⟨[]⟩), .poll, .execute 0 (.ok ⟨200, some []⟩), .close, .poll,
        .joinNext (some 0), .poll, .joinNext none]).map (fun s => (s.phase, s.sent)) =
      some (.ended, [.publishEvents ⟨[]⟩]) := by decide
  obtain ⟨s, hs, hend⟩ := Option.map_eq_some_iff.mp hexec
  obtain ⟨tr, hrun, -⟩ := Run.nil.append_exec hs
  exact ⟨tr, s, hrun, congrArg Prod.fst hend, congrArg Prod.snd hend,
    process_accounts_for_commands hrun⟩

/-- The channel is closed while the only request is running: it is cancelled. -/
theorem process_cancels_running_request :
    ∃ s, exec (step emptyClient "solana") init
        [.send (.publishEvents ⟨[]⟩), .poll, .close, .poll, .cancel 0, .joinNext (some 0), .poll,
          .joinNext none] = some s ∧
      s.phase = .ended ∧ s.sent = [.publishEvents ⟨[]⟩] ∧ ¬ LosesNone s := by
  refine ⟨_, rfl, rfl, rfl, fun h => ?_⟩
  exact h.kept _ List.mem_cons_self _ rfl

/-! ### The end can be reached -/

/-- How far a job is from having left the set. -/
def Job.rest (job : Job) : ℕ :=
  if job.inSet then if job.progress.ready then 2 else 3 else 0

/-- How far `process` is from its end, by itself. -/
def phaseRest (terminated : Bool) : Phase → ℕ
  | .ended => 0
  | .joining => if terminated then 1 else 4
  | .receiving => if terminated then 2 else 3

/-- How far the component is from its end. -/
def State.rest (s : State) : ℕ :=
  (if s.senders then 1 else 0) + 4 * s.queue.length + (s.jobs.map Job.rest).sum +
    phaseRest s.terminated s.phase

theorem Job.rest_le (job : Job) : job.rest ≤ 3 := by
  unfold Job.rest
  split_ifs <;> decide

theorem Progress.ready_abort (p : Progress) : p.abort.ready = p.ready := by cases p <;> rfl

/-- What changes with one job. -/
theorem rest_setJob_add {i : ℕ} {job : Job} (hi : s.jobs[i]? = some job) (job' : Job) :
    (s.setJob i job').rest + job.rest = s.rest + job'.rest := by
  have hsum : ((s.setJob i job').jobs.map Job.rest).sum + job.rest =
      (s.jobs.map Job.rest).sum + job'.rest := by
    show ((s.jobs.set i job').map Job.rest).sum + _ = _
    rw [List.set_eq_modify]
    exact sum_map_modify (fun _ => job') Job.rest hi
  show (if s.senders then 1 else 0) + 4 * s.queue.length +
    ((s.setJob i job').jobs.map Job.rest).sum + phaseRest s.terminated s.phase + job.rest = _
  unfold State.rest
  omega

/-- Going back to the receiver costs one. -/
theorem rest_receiving_le (hphase : s.phase = .joining) :
    State.rest { s with phase := .receiving } ≤ s.rest + 1 := by
  have hphases : phaseRest s.terminated .receiving ≤ phaseRest s.terminated .joining + 1 := by
    cases s.terminated <;> decide
  show (if s.senders then 1 else 0) + 4 * s.queue.length + (s.jobs.map Job.rest).sum +
    phaseRest s.terminated .receiving ≤ _
  unfold State.rest
  rw [hphase]
  omega

theorem exists_step_of_receiving (hopen : s.senders = false) (hphase : s.phase = .receiving) :
    ∃ a s', step client chain s a = some s' ∧ s'.rest < s.rest := by
  cases hqueue : s.queue with
  | cons command rest =>
    refine ⟨.poll, _, step_eq_some.mpr (.receive command rest hphase hqueue), ?_⟩
    have hjob := (internal client chain command).rest_le
    simp only [State.rest, hqueue, List.map_append, List.sum_append, List.map_cons, List.map_nil,
      List.sum_cons, List.sum_nil, List.length_cons]
    omega
  | nil =>
    refine ⟨.poll, _, step_eq_some.mpr (.closed hphase hqueue hopen), ?_⟩
    have hjobs : Job.rest ∘ (fun job => { job with progress := job.progress.abort }) =
        Job.rest := by
      funext job
      simp [Job.rest, Progress.ready_abort]
    simp only [State.rest, State.abortAll, List.map_map, hjobs, hphase, phaseRest]
    split_ifs <;> omega

theorem exists_step_of_joining (h : Inv client chain s) (hphase : s.phase = .joining) :
    ∃ a s', step client chain s a = some s' ∧ s'.rest < s.rest := by
  by_cases hempty : ∀ job ∈ s.jobs, job.inSet = false
  · by_cases hterm : s.terminated = true
    · refine ⟨.joinNext none, _, step_eq_some.mpr (.finish hphase hterm hempty), ?_⟩
      simp [State.rest, phaseRest, hphase, hterm]
    · refine ⟨.joinNext none, _, step_eq_some.mpr (.wait hphase fun hno => hterm hno.1), ?_⟩
      simp [State.rest, phaseRest, hphase, hterm]
  push Not at hempty
  obtain ⟨job, hmem, hset⟩ := hempty
  rw [ne_eq, Bool.not_eq_false] at hset
  obtain ⟨i, hi⟩ := List.getElem?_of_mem hmem
  by_cases hready : job.progress.ready = true
  · -- a task that is over is collected
    refine ⟨.joinNext (some i), _, step_eq_some.mpr (.collect i job hphase hi hset hready), ?_⟩
    have hadd := rest_setJob_add hi { job with inSet := false }
    have hback := rest_receiving_le (s := s.setJob i { job with inSet := false }) hphase
    have hold : job.rest = 2 := by simp [Job.rest, hset, hready]
    have hnew : Job.rest { job with inSet := false } = 0 := by simp [Job.rest]
    refine lt_of_le_of_lt hback ?_
    omega
  · -- any other is still running, and may fail
    obtain ⟨request, aborted, hrun⟩ :=
      (h.jobs job hmem).running_of_not_ready hset (by simpa using hready)
    refine ⟨.execute i (.error .reqwest), _,
      step_eq_some.mpr (.execute i _ job request aborted hi hrun), ?_⟩
    have hadd := rest_setJob_add hi { job with
      progress := .finished request (processPublishEventsRequest client (.error .reqwest)) }
    have hold : job.rest = 3 := by simp [Job.rest, hset, hready]
    have hnew : Job.rest { job with
        progress := .finished request
          (processPublishEventsRequest client (.error .reqwest)) } = 2 := by
      simp [Job.rest, hset, Progress.ready]
    omega

/-- Unless `process` has ended, some step leads nearer to its end. -/
theorem exists_step_to_end (h : Inv client chain s) (hend : s.phase ≠ .ended) :
    ∃ a s', step client chain s a = some s' ∧ s'.rest < s.rest := by
  by_cases hopen : s.senders = true
  · refine ⟨.close, _, step_eq_some.mpr .close, ?_⟩
    simp [State.rest, hopen]
  cases hphase : s.phase with
  | ended => exact absurd hphase hend
  | receiving => exact exists_step_of_receiving (by simpa using hopen) hphase
  | joining => exact exists_step_of_joining h hphase

/-- From every state the component can come to its end. -/
theorem exists_ended (h : Inv client chain s) :
    ∃ s', Reach (ofFn (step client chain)) s s' ∧ Inv client chain s' ∧ s'.phase = .ended := by
  refine Reach.exists_goal_of_decreasing State.rest (fun s hinv hend => ?_) h
  obtain ⟨a, s', hs, hless⟩ := exists_step_to_end hinv hend
  exact ⟨s', .single hs, inv_step hinv hs, hless⟩

end ToAmplifier
end RelayerCore
