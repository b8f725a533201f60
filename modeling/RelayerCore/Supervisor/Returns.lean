import RelayerCore.Lib.Fair
import RelayerCore.Supervisor.Restart

/-!
# The supervisor returns

`run` returns when the supervisor thread and all the worker threads have ended, for they share a
scope.  After the cancellation the supervisor finishes what it is at, empties the channel and leaves
the loop; no thread is restarted any more, and each ends.  A thread without a runtime that finds the
receiver gone panics, and then the scope panics too.

* `Joins`: a thread that is joined because it was replaced has nothing left to do but to return;
* `supervisor_returns_once_cancelled`.
-/

namespace RelayerCore
namespace Supervisor

open Machine

variable {builders : WorkerBuilders} {s s' : State} {a : Action}

/-! ### What a step does to the threads -/

/-- Threads are only added, keep their names, and do not report again once they have passed their
final reporting step. -/
def Evolves (threads threads' : List Thread) : Prop :=
  ∀ (i : ℕ) (t : Thread), threads[i]? = some t → ∃ t' : Thread, threads'[i]? = some t' ∧
    t'.name = t.name ∧ (t.stage.passed = true → t'.stage.passed = true)

theorem evolves_append (threads new : List Thread) : Evolves threads (threads ++ new) := by
  intro i t ht
  have hi : i < threads.length := (List.getElem?_eq_some_iff.1 ht).1
  exact ⟨t, by rw [List.getElem?_append_left hi, ht], rfl, id⟩

theorem evolves_set {threads : List Thread} {i : ℕ} {t : Thread} {stage : Stage}
    (ht : threads[i]? = some t) (hpassed : t.stage.passed = true → stage.passed = true) :
    Evolves threads (threads.set i { t with stage }) := by
  intro j u hu
  by_cases hji : i = j
  · subst hji
    rw [ht] at hu
    cases hu
    have hi : i < threads.length := (List.getElem?_eq_some_iff.1 ht).1
    exact ⟨_, List.getElem?_set_self hi, rfl, hpassed⟩
  · exact ⟨u, by rw [List.getElem?_set_ne hji, hu], rfl, id⟩

@[simp] theorem send_threads (name : WorkerName) : (s.send name).threads = s.threads := by
  unfold State.send
  split_ifs <;> rfl

@[simp] theorem send_activeWorkers (name : WorkerName) :
    (s.send name).activeWorkers = s.activeWorkers := by
  unfold State.send
  split_ifs <;> rfl

theorem runThread_evolves (hs : runThread s a = some s') :
    Evolves s.threads s'.threads ∧ s'.activeWorkers = s.activeWorkers := by
  rcases runThread_cases hs with ⟨i, t, stage, ht, hstage, -, rfl⟩ | ⟨i, t, ht, hlive, rfl⟩ |
    ⟨i, t, stage, ht, hlive, hpassed, -, rfl⟩
  · exact ⟨evolves_set ht fun hp => hstage.trans hp, rfl⟩
  · rw [send_threads, send_activeWorkers]
    exact ⟨evolves_set ht fun _ => rfl, rfl⟩
  · exact ⟨evolves_set ht fun _ => hpassed, rfl⟩

theorem receiving_of_supervise (hs : supervise builders s a = some s') :
    s.control.receiving = true := by
  cases supervises_of_supervise hs with
  | bootFails hc | boots hc | startupNext _ _ hc | startupOver hc | startupBuilt _ _ hc
  | startupFails _ _ hc | replaced _ _ hc | rebuilt _ hc | rebuildFails _ hc | seesCancel hc
  | ticks hc | receives _ _ hc | drops _ hc | rebuilds _ hc | panics _ hc | joins _ _ _ hc
  | stops hc =>
    rw [hc]
    rfl

/-- The supervisor only adds threads, which have not begun. -/
theorem supervise_threads (hs : supervise builders s a = some s') :
    s'.threads = s.threads ∨ ∃ name, s'.threads = s.threads ++ [⟨name, .spawned⟩] := by
  cases supervises_of_supervise hs with
  | startupBuilt name | replaced name | rebuilt name => exact Or.inr ⟨name, rfl⟩
  | startupFails name rest hc | rebuildFails name hc => exact Or.inl (send_threads name)
  | bootFails | boots | startupNext | startupOver | seesCancel | ticks | receives | drops
  | rebuilds | panics | joins | stops => exact Or.inl rfl

/-- What is set in one place was there before in all others. -/
theorem stage_of_set {threads : List Thread} {i j : ℕ} {t u : Thread} {stage : Stage}
    (hu : (threads.set j t)[i]? = some u) (h : u.stage = stage) :
    (j = i ∧ t.stage = stage) ∨ ∃ v, threads[i]? = some v ∧ v.stage = stage := by
  by_cases hji : j = i
  · subst hji
    have hj : j < threads.length := by
      simpa using (List.getElem?_eq_some_iff.1 hu).1
    rw [List.getElem?_set_self hj] at hu
    cases hu
    exact Or.inl ⟨rfl, h⟩
  · rw [List.getElem?_set_ne hji] at hu
    exact Or.inr ⟨u, hu, h⟩

/-- A thread that is in a stage after a step was in it before, or the step is its own and leads
there: to `.runtimeFailed` when its runtime cannot be created, to `.panicked` when it reports that
and the receiver is gone. -/
theorem stage_step {stage : Stage} (hnew : stage ≠ .spawned) (hs : step builders s a = some s')
    {i : ℕ} {t : Thread} (ht : s'.threads[i]? = some t) (h : t.stage = stage) :
    (stage = .runtimeFailed → a = .runtime i false) ∧
      (stage = .panicked → a = .report i ∧ s.control.receiving = false ∧
        ∃ u, s.threads[i]? = some u ∧ u.stage = .runtimeFailed) ∨
      ∃ u, s.threads[i]? = some u ∧ u.stage = stage := by
  rcases step_cases hs with rfl | hs | hs
  · exact Or.inr ⟨t, ht, h⟩
  · rcases supervise_threads hs with heq | ⟨name, heq⟩ <;> rw [heq] at ht
    · exact Or.inr ⟨t, ht, h⟩
    · rw [List.getElem?_append] at ht
      split_ifs at ht
      · exact Or.inr ⟨t, ht, h⟩
      · rw [List.mem_singleton.1 (List.mem_of_getElem? ht)] at h
        exact absurd h.symm hnew
  · cases runsThread_of_runThread hs with
    | startFails j name hj =>
      refine (stage_of_set ht h).imp_left ?_
      rintro ⟨rfl, rfl⟩
      exact ⟨fun _ => rfl, fun hno => by cases hno⟩
    | panics j name hj hgone =>
      refine (stage_of_set ht h).imp_left ?_
      rintro ⟨rfl, rfl⟩
      exact ⟨fun hno => (by cases hno), fun _ => ⟨rfl, hgone, _, hj, rfl⟩⟩
    | reportsFailure j name hj | reports j name hj =>
      rw [send_threads] at ht
      refine (stage_of_set ht h).imp_left ?_
      rintro ⟨rfl, rfl⟩
      exact ⟨fun hno => (by cases hno), fun hno => by cases hno⟩
    | starts | works | workFails | observes | checks | leaves | exits =>
      refine (stage_of_set ht h).imp_left ?_
      rintro ⟨rfl, rfl⟩
      exact ⟨fun hno => (by cases hno), fun hno => by cases hno⟩

theorem receiving_of_step (hs : step builders s a = some s') (h : s'.control.receiving = true) :
    s.control.receiving = true := by
  rcases step_cases hs with rfl | hs | hs
  · exact h
  · exact receiving_of_supervise hs
  · rwa [(runThread_frame hs).1] at h

/-- No thread panics while the receiver is there. -/
theorem unpanicked_step (hs : step builders s a = some s')
    (h : s.control.receiving = true → ∀ t ∈ s.threads, t.stage ≠ .panicked)
    (hrec : s'.control.receiving = true) : ∀ t ∈ s'.threads, t.stage ≠ .panicked := by
  intro t ht hpanicked
  obtain ⟨i, hi⟩ := List.mem_iff_getElem?.1 ht
  have hbefore := receiving_of_step hs hrec
  rcases stage_step (by simp) hs hi hpanicked with hown | ⟨u, hu, hold⟩
  · rw [(hown.2 rfl).2.1] at hbefore
    cases hbefore
  · exact h hbefore u (List.mem_of_getElem? hu) hold

/-! ### Replaced threads only return -/

/-- Thread `i` was spawned for the name. -/
def Spawned (threads : List Thread) (name : WorkerName) (i : ℕ) : Prop :=
  ∃ t : Thread, threads[i]? = some t ∧ t.name = name

theorem Spawned.evolve {threads threads' : List Thread} {name : WorkerName} {i : ℕ}
    (h : Spawned threads name i) (hev : Evolves threads threads') : Spawned threads' name i := by
  obtain ⟨t, ht, rfl⟩ := h
  obtain ⟨t', ht', hname, -⟩ := hev i t ht
  exact ⟨t', ht', hname⟩

theorem spawned_append (threads : List Thread) (name : WorkerName) (stage : Stage) :
    Spawned (threads ++ [⟨name, stage⟩]) name threads.length :=
  ⟨⟨name, stage⟩, by simp, rfl⟩

/-- The handles in use are those of the names' own threads, a replaced thread has passed its final
reporting step, and no thread panics while the receiver is there. -/
structure Joins (s : State) : Prop where
  active : ∀ name i, s.activeWorkers name = some i → Spawned s.threads name i
  joining : ∀ name old new, s.control = .joining name old new → Spawned s.threads name new ∧
    ∃ t, s.threads[old]? = some t ∧ t.stage.passed = true
  unpanicked : s.control.receiving = true → ∀ t ∈ s.threads, t.stage ≠ .panicked

theorem joins_init : Joins init where
  active _ _ h := by cases h
  joining _ _ _ h := by cases h
  unpanicked _ _ h := by cases h

/-- A thread that is joined has only to return, or has returned. -/
theorem Joins.leaving (h : Joins s) {name : WorkerName} {old new : ℕ}
    (hc : s.control = .joining name old new) :
    ∃ t, s.threads[old]? = some t ∧ (t.stage = .leaving ∨ t.stage = .done) := by
  obtain ⟨-, ⟨n, stage⟩, ht, hpassed⟩ := h.joining name old new hc
  have hno := h.unpanicked (by rw [hc]; rfl) _ (List.mem_of_getElem? ht)
  refine ⟨_, ht, ?_⟩
  cases stage with
  | leaving => exact Or.inl rfl
  | done => exact Or.inr rfl
  | panicked => exact absurd rfl hno
  | spawned | runtimeFailed | working | exited | reporting => cases hpassed

/-- What was in use before is in use, except for the handle of a name that gets a new one. -/
theorem active_update {threads : List Thread} {active : WorkerName → Option ℕ}
    {name : WorkerName} {i : ℕ} (h : ∀ n j, active n = some j → Spawned threads n j)
    (hi : Spawned threads name i) :
    ∀ n j, Function.update active name (some i) n = some j → Spawned threads n j := by
  intro n j hj
  by_cases hn : n = name
  · subst hn
    rw [Function.update_self] at hj
    cases hj
    exact hi
  · rw [Function.update_of_ne hn] at hj
    exact h n j hj

/-- A name that is being rebuilt has no live thread. -/
theorem passed_of_building (h : Inv builders s) {name : WorkerName}
    (hc : s.control = .building name) {t : Thread} (ht : t ∈ s.threads) (hname : t.name = name) :
    t.stage.passed = true := by
  by_contra hlive
  have hpos : 0 < s.threads.countP (Thread.live name) :=
    List.countP_pos_iff.2 ⟨t, ht, by simp [Thread.live, hname, hlive]⟩
  have hle := (h.tokens_le name).trans (List.nodup_iff_count_le_one.1 builders.nodup name)
  rw [tokens_of_control hc] at hle
  simp only [outside, Control.holding, List.count_singleton_self] at hle
  omega

theorem joins_supervise (hinv : Inv builders s) (h : Joins s)
    (hs : supervise builders s a = some s')
    (hpanic : s'.control.receiving = true → ∀ t ∈ s'.threads, t.stage ≠ .panicked) :
    Joins s' := by
  have hactive : ∀ new : List Thread, ∀ name i, s.activeWorkers name = some i →
      Spawned (s.threads ++ new) name i :=
    fun new name i hi => (h.active name i hi).evolve (evolves_append s.threads new)
  cases supervises_of_supervise hs with
  | startupBuilt name rest hc | rebuilt name hc hold =>
    refine ⟨active_update (hactive _) (spawned_append _ _ _), fun _ _ _ hj => ?_, hpanic⟩
    cases hj
  | replaced name old hc hold =>
    refine ⟨hactive _, ?_, hpanic⟩
    rintro _ _ _ ⟨⟩
    obtain ⟨t, ht, hname⟩ := h.active name old hold
    have hi : old < s.threads.length := (List.getElem?_eq_some_iff.1 ht).1
    refine ⟨spawned_append _ _ _, t, ?_, passed_of_building hinv hc (List.mem_of_getElem? ht) hname⟩
    show (s.threads ++ _)[old]? = some t
    rw [List.getElem?_append_left hi, ht]
  | joins name old new hc hover =>
    refine ⟨active_update h.active (h.joining name old new hc).1, fun _ _ _ hj => ?_, hpanic⟩
    cases hj
  | startupFails name rest hc | rebuildFails name hc =>
    refine ⟨?_, fun _ _ _ hj => (by cases hj), hpanic⟩
    show ∀ n i, (s.send name).activeWorkers n = some i → Spawned (s.send name).threads n i
    rw [send_threads, send_activeWorkers]
    exact h.active
  | ticks hc hcan => exact h
  | bootFails | boots | startupNext | startupOver | seesCancel | receives | drops | rebuilds
  | panics | stops => exact ⟨h.active, fun _ _ _ hj => (by cases hj), hpanic⟩

theorem joins_step (hinv : Inv builders s) (h : Joins s)
    (hs : step builders s a = some s') : Joins s' := by
  have hpanic := unpanicked_step hs h.unpanicked
  rcases step_cases hs with rfl | hs | hs
  · exact ⟨h.active, h.joining, hpanic⟩
  · exact joins_supervise hinv h hs hpanic
  · obtain ⟨hev, hactive⟩ := runThread_evolves hs
    refine ⟨fun name i hi => (h.active name i (hactive ▸ hi)).evolve hev, fun name old new hc => ?_,
      hpanic⟩
    rw [(runThread_frame hs).1] at hc
    obtain ⟨hnew, t, ht, hpassed⟩ := h.joining name old new hc
    obtain ⟨t', ht', -, hstay⟩ := hev old t ht
    exact ⟨hnew.evolve hev, t', ht', hstay hpassed⟩

theorem joins_of_reach (h : Reach (ofFn (step builders)) init s) : Inv builders s ∧ Joins s :=
  h.invariant (p := fun s => Inv builders s ∧ Joins s) ⟨inv_init, joins_init⟩
    fun _ _ _ h hs => ⟨inv_step h.1 hs, joins_step h.1 h.2 hs⟩

/-! ### The steps that are left -/

/-- The steps left to a thread, and to the supervisor for its report. -/
def Stage.rest : Stage → ℕ
  | .spawned => 7
  | .working => 6
  | .exited => 5
  | .runtimeFailed | .reporting => 4
  | .leaving => 1
  | .done | .panicked => 0

/-- The steps left to the supervisor, and to the threads it may still spawn. -/
def Control.rest (builders : WorkerBuilders) : Control → ℕ
  | .booting => 9 * builders.names.length + 4
  | .startup rest => 9 * rest.length + 3
  | .startupBuilding _ rest => 9 * rest.length + 11
  | .selecting => 2
  | .received _ | .joining .. => 3
  | .building _ => 11
  | .shuttingDown => 1
  | .bootFailed | .stopped | .panicked => 0

def threadsRest (threads : List Thread) : ℕ := (threads.map fun t => t.stage.rest).sum

def rank (builders : WorkerBuilders) (s : State) : ℕ :=
  s.control.rest builders + threadsRest s.threads + 2 * s.channel.length

/-- The supervisor, or thread `i` on its way to its end. -/
inductive Helper
  | supervisor
  | thread (i : ℕ)

def Helper.labels : Helper → Set Action
  | .supervisor => {a | a = .next ∨ a = .tick ∨ a = .recv ∨ a = .restart ∨ a = .joined ∨
      a = .graceOver ∨ ∃ ok, a = .boot ok ∨ a = .built ok}
  | .thread i => {a | a = .observeCancel i ∨ a = .check i ∨ a = .report i ∨ a = .exit i ∨
      ∃ ok, a = .runtime i ok}

/-- The replaced thread whose end the supervisor waits for. -/
def State.waitsFor (s : State) : Option ℕ :=
  match s.control with
  | .joining _ old _ => if (s.threads[old]?).all (fun t => t.stage.over) then none else some old
  | _ => none

/-- The supervisor as long as it is there and does not wait for a thread, then the first thread that
has not ended. -/
def helper (s : State) : Helper :=
  match s.waitsFor with
  | some old => .thread old
  | none =>
    if s.control.receiving then .supervisor
    else .thread (s.threads.findIdx fun t => !t.stage.over)

/-- The supervisor thread and all worker threads have ended. -/
def Ended (s : State) : Prop :=
  s.control.receiving = false ∧ ∀ t ∈ s.threads, t.stage.over = true

/-- The scope is left and `run` returns: neither the supervisor nor a worker thread has panicked. -/
def Returned (s : State) : Prop :=
  s.control.receiving = false ∧ s.control ≠ .panicked ∧ ∀ t ∈ s.threads, t.stage = .done

/-- The scope is left with a panic, because a worker thread has panicked. -/
def ScopePanics (s : State) : Prop := Ended s ∧ ∃ t ∈ s.threads, t.stage = .panicked

theorem returned_or_of_ended (hinv : Inv builders s) (h : Ended s) :
    Returned s ∨ ScopePanics s := by
  by_cases hpanic : ∃ t ∈ s.threads, t.stage = .panicked
  · exact Or.inr ⟨h, hpanic⟩
  · refine Or.inl ⟨h.1, hinv.noPanic, fun t ht => ?_⟩
    have hover := h.2 t ht
    obtain ⟨name, stage⟩ := t
    cases stage with
    | done => rfl
    | panicked => exact absurd ⟨_, ht, rfl⟩ hpanic
    | spawned | runtimeFailed | working | exited | reporting | leaving => cases hover

theorem threadsRest_append (threads : List Thread) (t : Thread) :
    threadsRest (threads ++ [t]) = threadsRest threads + t.stage.rest := by
  simp [threadsRest]

theorem threadsRest_set {threads : List Thread} {i : ℕ} {t : Thread} (stage : Stage)
    (ht : threads[i]? = some t) :
    threadsRest (threads.set i { t with stage }) + t.stage.rest =
      threadsRest threads + stage.rest := by
  have hsum := sum_map_modify (fun _ => ({ t with stage } : Thread)) (fun t => t.stage.rest) ht
  rw [← List.set_eq_modify] at hsum
  exact hsum

theorem rank_setStage {i : ℕ} {t : Thread} {stage : Stage} (ht : s.threads[i]? = some t)
    (hlt : stage.rest < t.stage.rest) :
    rank builders (s.setStage i t stage) < rank builders s := by
  have hset := threadsRest_set stage ht
  unfold rank State.setStage
  dsimp only
  omega

theorem rank_report {i : ℕ} {t : Thread} (ht : s.threads[i]? = some t) (hrest : t.stage.rest = 4) :
    rank builders ((s.setStage i t .leaving).send t.name) < rank builders s := by
  have hset := threadsRest_set .leaving ht
  have hleaving : Stage.rest .leaving = 1 := rfl
  unfold State.send
  split_ifs
  · simp only [rank, State.setStage, List.length_append, List.length_singleton]
    omega
  · simp only [rank, State.setStage]
    omega

theorem rank_send_le (name : WorkerName) (c : Control) :
    rank builders ((s.send name).goto c) ≤
      c.rest builders + threadsRest s.threads + 2 * s.channel.length + 2 := by
  unfold State.send
  split_ifs <;> simp only [rank, State.goto, List.length_append, List.length_singleton] <;> omega

/-- After the cancellation a step of a thread lowers the rank, or is a call of `do_work` that
returned `Ok`. -/
theorem rank_runThread (hcan : s.cancelled = true) (hs : runThread s a = some s') :
    rank builders s' < rank builders s ∨ s' = s ∧ ∃ i, a = .work i .ok := by
  cases runsThread_of_runThread hs with
  | works i name ht =>
    refine Or.inr ⟨?_, i, rfl⟩
    obtain ⟨hi, hget⟩ := List.getElem?_eq_some_iff.1 ht
    have hsame : s.threads.set i ⟨name, .working⟩ = s.threads := by
      rw [← hget, List.set_getElem_self]
    simp only [State.setStage, hsame]
  | leaves i name ht hno => simp [hcan] at hno
  | reportsFailure i name ht hrec | reports i name ht => exact Or.inl (rank_report ht rfl)
  | starts i name ht | startFails i name ht | workFails i name result hne ht
  | observes i name ht | checks i name ht | panics i name ht | exits i name ht =>
    exact Or.inl (rank_setStage ht (by simp [Stage.rest]))

/-- After the cancellation every step of the supervisor lowers the rank. -/
theorem rank_supervise (hcan : s.cancelled = true) (hs : supervise builders s a = some s') :
    rank builders s' < rank builders s := by
  cases supervises_of_supervise hs with
  | ticks hc hno => simp [hcan] at hno
  | rebuilds name hc hno hname => simp [hcan] at hno
  | startupFails name rest hc =>
    refine (rank_send_le name _).trans_lt ?_
    simp only [rank, hc, Control.rest]
    omega
  | rebuildFails name hc =>
    refine (rank_send_le name _).trans_lt ?_
    simp only [rank, hc, Control.rest]
    omega
  | receives name rest hc hch =>
    simp only [rank, State.goto, hc, hch, Control.rest, List.length_cons]
    omega
  | startupBuilt name rest hc | replaced name old hc hold | rebuilt name hc hold =>
    simp only [rank, State.goto, State.activate, State.spawnWorker, hc, Control.rest,
      threadsRest_append, Stage.rest]
    omega
  | bootFails hc | boots hc | startupNext name rest hc | startupOver hc | seesCancel hc
  | drops name hc | panics name hc | joins name old new hc | stops hc =>
    simp only [rank, State.goto, State.activate, hc, Control.rest, List.length_cons,
      List.length_nil]
    omega

/-! ### The end of `run` -/

theorem enabled_of_isSome {H : Helper} (ha : a ∈ H.labels) (hs : (step builders s a).isSome) :
    Enabled (ofFn (step builders)) H.labels s :=
  ⟨a, ha, _, (Option.some_get hs).symm⟩

/-- While the supervisor waits for a thread, this thread is about to return. -/
theorem leaving_of_waitsFor (h : Joins s) {old : ℕ} (hwait : s.waitsFor = some old) :
    ∃ name, s.threads[old]? = some ⟨name, .leaving⟩ := by
  unfold State.waitsFor at hwait
  split at hwait
  · rename_i name i new hc
    split_ifs at hwait with hover
    cases hwait
    obtain ⟨⟨n, stage⟩, ht, rfl | rfl⟩ := h.leaving hc
    · exact ⟨n, ht⟩
    · simp [ht, Stage.over] at hover
  · cases hwait

theorem enabled_supervisor (hcan : s.cancelled = true) (hwait : s.waitsFor = none)
    (hrec : s.control.receiving = true) :
    Enabled (ofFn (step builders)) Helper.supervisor.labels s := by
  cases hc : s.control with
  | booting =>
    exact enabled_of_isSome (a := .boot true) (by simp [Helper.labels])
      (by simp [step, supervise, hc])
  | startup rest =>
    refine enabled_of_isSome (a := .next) (by simp [Helper.labels]) ?_
    cases rest <;> simp [step, supervise, hc]
  | startupBuilding name rest =>
    exact enabled_of_isSome (a := .built false) (by simp [Helper.labels])
      (by simp [step, supervise, hc])
  | selecting =>
    exact enabled_of_isSome (a := .tick) (by simp [Helper.labels]) (by simp [step, supervise, hc])
  | received name =>
    exact enabled_of_isSome (a := .restart) (by simp [Helper.labels])
      (by simp [step, supervise, hc, hcan])
  | building name =>
    exact enabled_of_isSome (a := .built false) (by simp [Helper.labels])
      (by simp [step, supervise, hc])
  | joining name old new =>
    have hover : (s.threads[old]?).all (fun t => t.stage.over) = true := by
      by_contra hno
      simp [State.waitsFor, hc, hno] at hwait
    exact enabled_of_isSome (a := .joined) (by simp [Helper.labels])
      (by simp [step, supervise, hc, hover])
  | shuttingDown =>
    exact enabled_of_isSome (a := .graceOver) (by simp [Helper.labels])
      (by simp [step, supervise, hc])
  | bootFailed | stopped | panicked =>
    rw [hc] at hrec
    cases hrec

theorem enabled_thread (hcan : s.cancelled = true) {i : ℕ} {t : Thread}
    (ht : s.threads[i]? = some t) (hlive : t.stage.over = false) :
    Enabled (ofFn (step builders)) (Helper.thread i).labels s := by
  obtain ⟨name, stage⟩ := t
  cases stage with
  | done | panicked => cases hlive
  | spawned =>
    exact enabled_of_isSome (a := .runtime i true) (by simp [Helper.labels])
      (by simp [step, runThread, ht])
  | working =>
    exact enabled_of_isSome (a := .observeCancel i) (by simp [Helper.labels])
      (by simp [step, runThread, ht, hcan])
  | exited =>
    exact enabled_of_isSome (a := .check i) (by simp [Helper.labels])
      (by simp [step, runThread, ht])
  | runtimeFailed =>
    refine enabled_of_isSome (a := .report i) (by simp [Helper.labels]) ?_
    cases hrec : s.control.receiving <;> simp [step, runThread, ht, hrec]
  | reporting =>
    exact enabled_of_isSome (a := .report i) (by simp [Helper.labels])
      (by simp [step, runThread, ht])
  | leaving =>
    exact enabled_of_isSome (a := .exit i) (by simp [Helper.labels])
      (by simp [step, runThread, ht])

theorem enabled_helper (hcan : s.cancelled = true) (h : Joins s) (hend : ¬ Ended s) :
    Enabled (ofFn (step builders)) (helper s).labels s := by
  unfold helper
  cases hwait : s.waitsFor with
  | some old =>
    obtain ⟨name, ht⟩ := leaving_of_waitsFor h hwait
    exact enabled_thread hcan ht rfl
  | none =>
    dsimp only
    split_ifs with hrec
    · exact enabled_supervisor hcan hwait hrec
    · have hex : ∃ t ∈ s.threads, (!t.stage.over) = true := by
        by_contra hno
        push Not at hno
        exact hend ⟨by simpa using hrec, fun t ht => by simpa using hno t ht⟩
      have hlt : s.threads.findIdx (fun t => !t.stage.over) < s.threads.length :=
        List.findIdx_lt_length_of_exists hex
      refine enabled_thread hcan (List.getElem?_eq_getElem hlt) ?_
      simpa using List.findIdx_getElem (w := hlt)

theorem step_of_ne_cancel (ha : a ≠ .cancel) (hs : step builders s a = some s') :
    supervise builders s a = some s' ∨ runThread s a = some s' := by
  cases a with
  | cancel => exact absurd rfl ha
  | runtime | work | observeCancel | check | report | exit => exact Or.inr hs
  | boot | next | built | tick | recv | restart | joined | graceOver => exact Or.inl hs

/-- After the cancellation every step but a successful call of `do_work` brings `run` closer to its
end. -/
theorem ranking (builders : WorkerBuilders) :
    Ranking (ofFn (step builders)) Helper.labels
      (fun s => s.cancelled = true ∧ Inv builders s ∧ Joins s) Ended (rank builders) helper where
  enabled s h hend := enabled_helper h.1 h.2.2 hend
  step s a s' h hend hs := by
    obtain ⟨hcan, hinv, hjoins⟩ := h
    have hinv' := inv_step hinv hs
    have hjoins' := joins_step hinv hjoins hs
    by_cases ha : a = .cancel
    · subst ha
      obtain rfl : s = s' := by
        rw [← Option.some.inj hs, ← hcan]
      refine Or.inr ⟨⟨hcan, hinv, hjoins⟩, Or.inr ⟨rfl, rfl, ?_⟩⟩
      generalize helper s = H
      cases H <;> simp [Helper.labels]
    rcases step_of_ne_cancel ha hs with hsup | hrun
    · have hcan' := (supervise_frame hinv hsup).1.trans hcan
      exact Or.inr ⟨⟨hcan', hinv', hjoins'⟩, Or.inl (rank_supervise hcan hsup)⟩
    · have hcan' := (runThread_frame hrun).2.1.trans hcan
      refine Or.inr ⟨⟨hcan', hinv', hjoins'⟩, ?_⟩
      rcases rank_runThread hcan hrun with hlt | ⟨rfl, i, rfl⟩
      · exact Or.inl hlt
      · refine Or.inr ⟨rfl, rfl, ?_⟩
        generalize helper s' = H
        cases H <;> simp [Helper.labels]

/-! ### The threads that panic -/

section Panics

variable (ρ : Execution (ofFn (step builders))) (h0 : ρ.state 0 = init) {m i : ℕ} {t : Thread}

include h0

/-- No thread starts in `stage`, so that a step has brought it there. -/
theorem reaches_stage {stage : Stage} {p : ℕ → Prop}
    (hstep : ∀ k a t, ρ.label k = some a → (ρ.state (k + 1)).threads[i]? = some t →
      t.stage = stage → p k ∨ ∃ u, (ρ.state k).threads[i]? = some u ∧ u.stage = stage)
    (ht : (ρ.state m).threads[i]? = some t) (h : t.stage = stage) : ∃ k < m, p k := by
  induction m generalizing t with
  | zero =>
    rw [h0] at ht
    cases ht
  | succ m ih =>
    cases ha : ρ.label m with
    | none =>
      rw [ρ.pauses m ha] at ht
      obtain ⟨k, hk, hp⟩ := ih ht h
      exact ⟨k, by omega, hp⟩
    | some a =>
      rcases hstep m a t ha ht h with hp | ⟨u, hu, hbefore⟩
      · exact ⟨m, by omega, hp⟩
      · obtain ⟨k, hk, hp⟩ := ih hu hbefore
        exact ⟨k, by omega, hp⟩

/-- The creation of the runtime of a thread without one has failed. -/
theorem runtime_of_runtimeFailed (ht : (ρ.state m).threads[i]? = some t)
    (h : t.stage = .runtimeFailed) : ∃ k < m, ρ.label k = some (.runtime i false) :=
  reaches_stage ρ h0 (fun k a t ha ht h => (stage_step (by simp) (ρ.moves k a ha) ht h).imp_left
    fun hown => by rw [ha, hown.1 rfl]) ht h

/-- A thread that has panicked has found the receiver gone when it reported that it has no
runtime. -/
theorem report_of_panicked (ht : (ρ.state m).threads[i]? = some t) (h : t.stage = .panicked) :
    ∃ k < m, ρ.label k = some (.report i) ∧ (ρ.state k).control.receiving = false ∧
      ∃ u, (ρ.state k).threads[i]? = some u ∧ u.stage = .runtimeFailed :=
  reaches_stage ρ h0 (fun k a t ha ht h => (stage_step (by simp) (ρ.moves k a ha) ht h).imp_left
    fun hown => ⟨by rw [ha, (hown.2 rfl).1], (hown.2 rfl).2⟩) ht h

end Panics

/-- The creation of the runtime of thread `i` has failed before step `m`, and later, but before
`m` too, the thread has reported that and found the receiver gone. -/
def FoundReceiverGone (ρ : Execution (ofFn (step builders))) (m i : ℕ) : Prop :=
  ∃ k < m, ρ.label k = some (.report i) ∧ (ρ.state k).control.receiving = false ∧
    ∃ j < k, ρ.label j = some (.runtime i false)

/-- **The supervisor returns once the token is cancelled.**  A thread that it joins because it was
replaced has only to return, a thread that panics has found the receiver gone when it reported that
it has no runtime, and in an execution that is fair to the supervisor and to the ends of the
threads, all threads of the scope end, whatever the workers return and whichever builds fail; `run`
then returns, unless a worker thread has panicked. -/
theorem supervisor_returns_once_cancelled (ρ : Execution (ofFn (step builders)))
    (h0 : ρ.state 0 = init) (hfair : ∀ H : Helper, ρ.FairTo H.labels) :
    (∀ k name old new, (ρ.state k).control = .joining name old new →
      ∃ t, (ρ.state k).threads[old]? = some t ∧ (t.stage = .leaving ∨ t.stage = .done)) ∧
      (∀ m i t, (ρ.state m).threads[i]? = some t → t.stage = .panicked →
        FoundReceiverGone ρ m i) ∧
      ∀ n, (ρ.state n).cancelled = true → ∃ m ≥ n, Returned (ρ.state m) ∨
        ScopePanics (ρ.state m) := by
  have hinv : ∀ k, Inv builders (ρ.state k) ∧ Joins (ρ.state k) :=
    fun k => joins_of_reach (h0 ▸ ρ.reach k)
  refine ⟨fun k name old new hc => (hinv k).2.leaving hc, fun m i t ht hpanicked => ?_,
    fun n hcan => ?_⟩
  · obtain ⟨k, hk, hreport, hgone, u, hu, hfailed⟩ := report_of_panicked ρ h0 ht hpanicked
    exact ⟨k, hk, hreport, hgone, runtime_of_runtimeFailed ρ h0 hu hfailed⟩
  · obtain ⟨m, hm, hend⟩ := (ranking builders).leadsTo ρ hfair ⟨hcan, hinv n⟩
    exact ⟨m, hm, returned_or_of_ended (hinv m).1 hend⟩

/-- The subscriber's first runtime fails, it is replaced, and the token is cancelled. -/
def replaceThenCancel : List Action :=
  [.boot true, .next, .built true, .next, .runtime 0 false, .report 0, .recv, .restart,
    .built true, .exit 0, .joined, .cancel, .runtime 1 true, .observeCancel 1, .check 1, .report 1,
    .exit 1, .tick, .graceOver]

/-- The theorem on that run. -/
theorem supervisor_returns_once_cancelled_replaced :
    ∃ ρ : Execution (ofFn (step subscriberOnly)), ρ.state 0 = init ∧
      (∀ k name old new, (ρ.state k).control = .joining name old new →
        ∃ t, (ρ.state k).threads[old]? = some t ∧ (t.stage = .leaving ∨ t.stage = .done)) ∧
      (∀ m i t, (ρ.state m).threads[i]? = some t → t.stage = .panicked →
        FoundReceiverGone ρ m i) ∧
      ∃ m, Returned (ρ.state m) ∨ ScopePanics (ρ.state m) := by
  obtain ⟨s, hs, hp⟩ := Option.map_eq_some_iff.1
    (show (exec (step subscriberOnly) init replaceThenCancel).map (fun s => s.cancelled &&
      s.control == .stopped && s.threads == [⟨"subscriber", .done⟩, ⟨"subscriber", .done⟩]) =
        some true by decide)
  simp only [Bool.and_eq_true, beq_iff_eq] at hp
  obtain ⟨⟨hcan, hc⟩, hthreads⟩ := hp
  have hdone : ∀ (i : ℕ) (t : Thread), s.threads[i]? = some t → t = ⟨"subscriber", .done⟩ := by
    intro i t ht
    rw [hthreads] at ht
    simpa using List.mem_of_getElem? ht
  have hfair : ∀ H : Helper, (ofExec hs).FairTo H.labels := by
    intro H
    refine fairTo_ofExec hs fun a ha => ?_
    cases H with
    | supervisor =>
      rcases ha with rfl | rfl | rfl | rfl | rfl | rfl | ⟨ok, rfl | rfl⟩ <;>
        simp [step, supervise, hc]
    | thread i =>
      cases hi : s.threads[i]? with
      | none =>
        rcases ha with rfl | rfl | rfl | rfl | ⟨ok, rfl⟩ <;> simp [step, runThread, hi]
      | some t =>
        cases hdone i t hi
        rcases ha with rfl | rfl | rfl | rfl | ⟨ok, rfl⟩ <;> simp [step, runThread, hi]
  obtain ⟨hjoins, hpanics, hreturns⟩ :=
    supervisor_returns_once_cancelled (ofExec hs) (ofExec_zero hs) hfair
  have hlast : ((ofExec hs).state replaceThenCancel.length).cancelled = true := by
    rw [ofExec_of_le hs le_rfl, hcan]
  obtain ⟨m, -, hm⟩ := hreturns _ hlast
  exact ⟨ofExec hs, ofExec_zero hs, hjoins, hpanics, m, hm⟩

/-- The supervisor is gone before a thread finds that it has no runtime. -/
example : (exec (step subscriberOnly) init [.boot true, .next, .built true, .next, .cancel, .tick,
    .graceOver, .runtime 0 false, .report 0]).map State.threads =
      some [⟨"subscriber", .panicked⟩] := by
  decide

end Supervisor
end RelayerCore
