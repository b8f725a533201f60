import RelayerCore.Lib.Fair
import RelayerCore.ToAmplifier.Close

/-!
# Without clients the publishing half ends

Once the last client is gone, every fair execution of `process` ends: the rest of the channel is
received, the tasks that are still running are aborted, dropped and collected.  `poll_join_next`
answers `Pending` only if no task of the set is over (`Prompt`).
-/

namespace RelayerCore
namespace ToAmplifier

open Machine

/-- `poll_join_next` does not overlook a task that is over. -/
def Prompt (s : State) : Action → Prop
  | .joinNext none => ∀ job ∈ s.jobs, job.inSet = true → job.progress.ready = false
  | _ => True

instance (s : State) : (a : Action) → Decidable (Prompt s a)
  | .joinNext none =>
    inferInstanceAs (Decidable (∀ job ∈ s.jobs, job.inSet = true → job.progress.ready = false))
  | .joinNext (some _) | .send _ | .close | .poll | .execute .. | .cancel _ => .isTrue trivial

/-- The steps of `process` itself, or those that end the task of command `i`. -/
inductive Helper
  | process
  | task (i : ℕ)

def Helper.labels : Helper → Set Action
  | .process => {a | a = .poll ∨ ∃ ready, a = .joinNext ready}
  | .task i => {a | a = .cancel i ∨ ∃ execution, a = .execute i execution}

/-- The task of command `i` is running. -/
def RunningAt (s : State) (i : ℕ) : Prop :=
  ∃ job request aborted, s.jobs[i]? = some job ∧ job.progress = .running request aborted

open Classical in
/-- Once the channel is closed, the tasks that are running are waited for. -/
noncomputable def helperOf (terminated : Bool) (running : ℕ → Prop) : Helper :=
  if h : terminated = true ∧ ∃ i, running i then .task h.2.choose else .process

noncomputable def helper (s : State) : Helper := helperOf s.terminated (RunningAt s)

/-- The commands to be received and the tasks to be over and collected. -/
def State.weight (s : State) : ℕ := 4 * s.queue.length + (s.jobs.map Job.rest).sum

open Classical in
/-- How far `process` has come in its round. -/
noncomputable def State.round (s : State) : ℕ :=
  if s.terminated = false then if s.phase = .joining then 3 else 2
  else if (∃ i, RunningAt s i) ∨ s.phase = .receiving then 1 else 0

noncomputable def State.rank (s : State) : ℕ := 2 * s.weight + s.round

variable {client : AmplifierApiClient} {chain : String} {s s' : State} {a : Action}

theorem round_of_terminated (h : s.terminated = true) : s.round ≤ 1 := by
  unfold State.round
  rw [h]
  split_ifs <;> simp_all

theorem weight_setJob {i : ℕ} {job : Job} (hi : s.jobs[i]? = some job) (job' : Job) :
    (s.setJob i job').weight + job.rest = s.weight + job'.rest := by
  have hsum : ((s.jobs.set i job').map Job.rest).sum + job.rest =
      (s.jobs.map Job.rest).sum + job'.rest := by
    rw [List.set_eq_modify]
    exact sum_map_modify (fun _ => job') Job.rest hi
  unfold State.weight State.setJob
  dsimp only
  omega

theorem weight_abortAll (s : State) : s.abortAll.weight = s.weight := by
  have hjobs : Job.rest ∘ (fun job => { job with progress := job.progress.abort }) = Job.rest := by
    funext job
    simp [Job.rest, Progress.ready_abort]
  simp only [State.weight, State.abortAll, List.map_map, hjobs]

/-- An abort keeps the running tasks running. -/
theorem runningAt_abortAll (s : State) : RunningAt s.abortAll = RunningAt s := by
  funext i
  simp only [RunningAt, State.abortAll, List.getElem?_map, Option.map_eq_some_iff, eq_iff_iff]
  constructor
  · rintro ⟨_, request, aborted, ⟨job, hi, rfl⟩, hrun⟩
    refine ⟨job, request, ?_⟩
    cases hp : job.progress <;> simp_all [Progress.abort]
  · rintro ⟨job, request, aborted, hi, hrun⟩
    exact ⟨_, request, true, ⟨job, hi, rfl⟩, by simp [hrun, Progress.abort]⟩

/-- The round changes little when the channel is closed. -/
theorem round_setJob_le (s : State) (i : ℕ) (job : Job) : (s.setJob i job).round ≤ s.round + 1 := by
  unfold State.round State.setJob
  dsimp only
  split_ifs <;> omega

/-- While no client is left and `process` has not ended, its helper can take a step. -/
theorem enabled_helper (h : Inv client chain s) (hopen : s.senders = false)
    (hend : s.phase ≠ .ended) :
    Enabled (when (ofFn (step client chain)) Prompt) (helper s).labels s := by
  unfold helper helperOf
  split_ifs with hrunning
  · obtain ⟨job, request, aborted, hi, hrun⟩ := hrunning.2.choose_spec
    have haborted := ((h.jobs job (List.mem_of_getElem? hi)).running request aborted hrun).1
    rw [hrunning.1] at haborted
    subst haborted
    exact ⟨_, Or.inl rfl, _, trivial, step_eq_some.2 (.cancel _ job request hi hrun)⟩
  · cases hphase : s.phase with
    | ended => exact absurd hphase hend
    | receiving =>
      refine ⟨.poll, Or.inl rfl, ?_⟩
      cases hqueue : s.queue with
      | cons command rest =>
        exact ⟨_, trivial, step_eq_some.2 (.receive command rest hphase hqueue)⟩
      | nil => exact ⟨_, trivial, step_eq_some.2 (.closed hphase hqueue hopen)⟩
    | joining =>
      by_cases hready : ∃ job ∈ s.jobs, job.inSet = true ∧ job.progress.ready = true
      · obtain ⟨job, hmem, hset, hready⟩ := hready
        obtain ⟨i, hi⟩ := List.getElem?_of_mem hmem
        exact ⟨_, Or.inr ⟨some i, rfl⟩, _, trivial,
          step_eq_some.2 (.collect i job hphase hi hset hready)⟩
      · have hprompt : Prompt s (.joinNext none) := by
          intro job hmem hset
          by_contra hno
          exact hready ⟨job, hmem, hset, by simpa using hno⟩
        refine ⟨.joinNext none, Or.inr ⟨none, rfl⟩, ?_⟩
        by_cases hdone : s.terminated = true ∧ ∀ job ∈ s.jobs, job.inSet = false
        · exact ⟨_, hprompt, step_eq_some.2 (.finish hphase hdone.1 hdone.2)⟩
        · exact ⟨_, hprompt, step_eq_some.2 (.wait hphase hdone)⟩

/-- The end of a running task lowers the rank. -/
theorem rank_over {i : ℕ} {job : Job} (h : Inv client chain s) (hi : s.jobs[i]? = some job)
    {request : AmplifierRequest} {aborted : Bool} (hrun : job.progress = .running request aborted)
    {progress : Progress} (hready : progress.ready = true) :
    (s.setJob i { job with progress }).rank < s.rank := by
  have hset := ((h.jobs job (List.mem_of_getElem? hi)).running request aborted hrun).2
  have hweight := weight_setJob hi { job with progress }
  have hold : job.rest = 3 := by simp [Job.rest, hset, hrun, Progress.ready]
  have hnew : Job.rest { job with progress } = 2 := by simp [Job.rest, hset, hready]
  have hround := round_setJob_le s i { job with progress }
  unfold State.rank
  omega

theorem process_not_mem {i : ℕ} (ha : a = .poll ∨ ∃ ready, a = .joinNext ready) :
    a ∉ (Helper.task i).labels := by
  rintro (h | ⟨execution, h⟩) <;> rcases ha with rfl | ⟨ready, rfl⟩ <;> cases h

/-- In the round of a closed channel `process` waits for the same task, or goes on. -/
theorem round_terminated (s' : State) (hterm : s.terminated = true) (hterm' : s'.terminated = true)
    (hrunning : RunningAt s' = RunningAt s) (hphase : s.phase ≠ .joining → s'.phase ≠ .receiving)
    (hsome : s.phase = .joining → ∃ i, RunningAt s i) (hweight : s'.weight = s.weight)
    (hrec : s.phase = .joining ∨ s.phase = .receiving)
    (ha : a = .poll ∨ ∃ ready, a = .joinNext ready) :
    s'.rank < s.rank ∨ s'.rank = s.rank ∧ helper s' = helper s ∧ a ∉ (helper s).labels := by
  have hhelper : helper s' = helper s := by
    unfold helper
    rw [hterm, hterm', hrunning]
  by_cases hex : ∃ i, RunningAt s i
  · refine Or.inr ⟨?_, hhelper, ?_⟩
    · simp [State.rank, State.round, hterm, hterm', hweight, hrunning, hex]
    · unfold helper helperOf
      rw [dif_pos ⟨hterm, hex⟩]
      exact process_not_mem ha
  · have hp : s.phase = .receiving := hrec.resolve_left fun hj => hex (hsome hj)
    have hp' : s'.phase ≠ .receiving := hphase (by simp [hp])
    left
    simp [State.rank, State.round, hterm, hterm', hweight, hrunning, hex, hp, hp']

/-- Every step brings `process` closer to its end, or leaves it waiting for the same task. -/
theorem ranking (client : AmplifierApiClient) (chain : String) :
    Ranking (when (ofFn (step client chain)) Prompt) Helper.labels
      (fun s => Inv client chain s ∧ s.senders = false) (fun s => s.phase = .ended) State.rank
      helper where
  enabled s h hend := enabled_helper h.1 h.2 hend
  step s a s' h hend hs := by
    obtain ⟨hinv, hopen⟩ := h
    obtain ⟨hprompt, hs⟩ := hs
    have hinv' := inv_step hinv hs
    cases step_eq_some.1 hs with
    | send command hsend => rw [hopen] at hsend; cases hsend
    | close =>
      have hsame : { s with senders := false } = s := by rw [← hopen]
      rw [hsame]
      refine Or.inr ⟨⟨hinv, hopen⟩, Or.inr ⟨rfl, rfl, fun hmem => ?_⟩⟩
      unfold Helper.labels at hmem
      split at hmem <;> rcases hmem with hmem | ⟨_, hmem⟩ <;> cases hmem
    | receive command rest hphase hqueue =>
      have hterm : s.terminated = false := by
        by_contra hno
        have hnil := (hinv.drained (by simpa using hno)).1
        rw [hqueue] at hnil
        cases hnil
      refine Or.inr ⟨⟨hinv', hopen⟩, Or.inl ?_⟩
      have hjob := (internal client chain command).rest_le
      simp only [State.rank, State.weight, State.round, hqueue, hphase, hterm, List.map_append,
        List.sum_append, List.map_cons, List.map_nil, List.sum_cons, List.sum_nil,
        List.length_cons]
      simp
      omega
    | pending hphase hqueue hsend => rw [hopen] at hsend; cases hsend
    | closed hphase hqueue _ =>
      have hweight : State.weight { s.abortAll with terminated := true, phase := .joining } =
          s.weight := weight_abortAll s
      refine Or.inr ⟨⟨hinv', hopen⟩, ?_⟩
      rcases Bool.eq_false_or_eq_true s.terminated with hterm | hterm
      · exact round_terminated { s.abortAll with terminated := true, phase := .joining } hterm rfl
          (runningAt_abortAll s) (by simp) (by simp [hphase]) hweight (Or.inr hphase) (Or.inl rfl)
      · left
        have hround := round_of_terminated
          (s := { s.abortAll with terminated := true, phase := .joining }) rfl
        have hold : s.round = 2 := by simp [State.round, hterm, hphase]
        unfold State.rank
        omega
    | collect i job hphase hi hset hready =>
      refine Or.inr ⟨⟨hinv', hopen⟩, Or.inl ?_⟩
      have hweight := weight_setJob hi { job with inSet := false }
      have hold : job.rest = 2 := by simp [Job.rest, hset, hready]
      have hnew : Job.rest { job with inSet := false } = 0 := by simp [Job.rest]
      have hround : State.round { s.setJob i { job with inSet := false } with
          phase := .receiving } ≤ s.round + 1 := by
        unfold State.round State.setJob
        dsimp only
        split_ifs <;> simp_all
      have hsame : State.weight { s.setJob i { job with inSet := false } with
          phase := .receiving } = (s.setJob i { job with inSet := false }).weight := rfl
      unfold State.rank
      omega
    | finish hphase hterm hempty => exact Or.inl rfl
    | wait hphase hmore =>
      refine Or.inr ⟨⟨hinv', hopen⟩, ?_⟩
      rcases Bool.eq_false_or_eq_true s.terminated with hterm | hterm
      · -- a task of the set is not over, so it is running
        have hrunning : ∃ i, RunningAt s i := by
          have hmore : ¬ ∀ job ∈ s.jobs, job.inSet = false := fun hall => hmore ⟨hterm, hall⟩
          push Not at hmore
          obtain ⟨job, hmem, hset⟩ := hmore
          have hset : job.inSet = true := by simpa using hset
          obtain ⟨request, aborted, hrun⟩ :=
            (hinv.jobs job hmem).running_of_not_ready hset (hprompt job hmem hset)
          obtain ⟨i, hi⟩ := List.getElem?_of_mem hmem
          exact ⟨i, job, request, aborted, hi, hrun⟩
        exact round_terminated { s with phase := .receiving } hterm hterm rfl
          (fun hno => absurd hphase hno) (fun _ => hrunning) rfl (Or.inl hphase)
          (Or.inr ⟨none, rfl⟩)
      · left
        simp [State.rank, State.round, State.weight, hterm, hphase]
    | execute i execution job request aborted hi hrun =>
      exact Or.inr ⟨⟨hinv', hopen⟩, Or.inl (rank_over hinv hi hrun rfl)⟩
    | cancel i job request hi hrun =>
      exact Or.inr ⟨⟨hinv', hopen⟩, Or.inl (rank_over hinv hi hrun rfl)⟩

/-- **The publishing half ends once no client is left**, in every fair execution; by then it has
received every command, and the task of each is over. -/
theorem process_ends_once_closed (ρ : Machine.Execution (when (ofFn (step client chain)) Prompt))
    (h0 : ρ.state 0 = init) (hfair : ∀ H : Helper, ρ.FairTo H.labels) {n : ℕ}
    (hclosed : (ρ.state n).senders = false) :
    ∃ m ≥ n, (ρ.state m).phase = .ended ∧ (ρ.state m).queue = [] ∧
      ∀ job ∈ (ρ.state m).jobs, job.Driven ∨ (∃ err, job.progress = .refused err) ∨
        ∃ request, job.progress = .cancelled request := by
  have hinv : ∀ k, Inv client chain (ρ.state k) :=
    fun k => inv_of_reach (h0 ▸ (ρ.reach k).of_when)
  obtain ⟨m, hm, hend⟩ := (ranking client chain).leadsTo ρ hfair ⟨hinv n, hclosed⟩
  obtain ⟨hterm, hempty⟩ := (hinv m).ended hend
  exact ⟨m, hm, hend, ((hinv m).drained hterm).1,
    fun job hjob => ((hinv m).jobs job hjob).over (hempty job hjob)⟩

/-- The command is sent, its answer comes, and the client goes. -/
def answeredThenClosed : List Action :=
  [.send (.publishEvents ⟨[]⟩), .poll, .close, .poll, .execute 0 (.ok ⟨200, some []⟩),
    .joinNext (some 0), .poll, .joinNext none]

/-- The theorem on the run in which the request is answered after the abort. -/
theorem process_ends_after_answer :
    ∃ ρ : Machine.Execution (when (ofFn (step emptyClient "solana")) Prompt), ∃ m,
      ρ.state 0 = init ∧ (ρ.state m).phase = .ended := by
  obtain ⟨s, hs, hp⟩ := Option.map_eq_some_iff.1
    (show (exec (guarded (step emptyClient "solana") Prompt) init answeredThenClosed).map
      (fun s => decide (s.phase = .ended ∧ s.jobs.all fun job => job.progress.ready)) = some true
      by decide)
  obtain ⟨hend, hready⟩ := of_decide_eq_true hp
  have hfair : ∀ H : Helper, (ofExecWhen hs).FairTo H.labels := by
    intro H
    refine fairTo_ofExecWhen hs fun a ha => ?_
    cases H with
    | process =>
      rcases ha with rfl | ⟨ready, rfl⟩
      · simp [step, poll, hend]
      · cases ready <;> simp [step, joinNext, hend]
    | task i =>
      cases hi : s.jobs[i]? with
      | none => rcases ha with rfl | ⟨execution, rfl⟩ <;> simp [step, stepTask, hi]
      | some job =>
        have hjob := List.all_eq_true.1 hready job (List.mem_of_getElem? hi)
        rcases ha with rfl | ⟨execution, rfl⟩ <;> revert hjob <;>
          cases hprogress : job.progress <;>
          simp [step, stepTask, hi, hprogress, Progress.ready, Progress.cancel, Progress.execute]
  have hclosed : ((ofExecWhen hs).state 3).senders = false := by
    show (stateAfter (guarded (step emptyClient "solana") Prompt) init answeredThenClosed
      3).senders = false
    decide
  obtain ⟨m, -, hm, -⟩ := process_ends_once_closed (ofExecWhen hs) (ofExec_zero hs) hfair hclosed
  exact ⟨ofExecWhen hs, m, ofExec_zero hs, hm⟩

end ToAmplifier
end RelayerCore
