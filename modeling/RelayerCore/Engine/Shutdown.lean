import RelayerCore.Engine.Model
import RelayerCore.Lib.Fair

/-!
# When the engine shuts down

The engine begins to shut down only after it has collected a task that failed, and it returns only
when every task is over; until then no task is dropped and the ones that returned `Ok` disturb
nobody.  Once a task has failed, or Ctrl-C was received, a fair engine returns.
-/

namespace RelayerCore
namespace Engine

open TaskSet Machine

variable {engine : RelayerEngine} {s s' : State engine} {a : Action engine}

/-- What the engine promises about its tasks. -/
structure Supervised (s : State engine) : Prop where
  /-- Every task keeps to the runs of its own, and is dropped only by a panic or an abort. -/
  own : ∀ i, (engine.tasks i).Lives (s.slots i).status.dropped (s.slots i).state
  /-- In the loop no task has been dropped, and all that were collected had returned `Ok`. -/
  spared : s.control = .joining → ∀ i, (s.slots i).status ≠ .aborted ∧
    (s.slots i).status.exit ≠ some .cancelled ∧
    ((s.slots i).status.isJoined = true → (s.slots i).status = .joined .ok)
  /-- The shutdown has a cause. -/
  cause : s.control ≠ .joining →
    ∃ i, (s.slots i).status = .joined .err ∨ (s.slots i).status = .joined .panicked
  returned : s.control = .returned → s.slots.Empty

/-! ### The loop and the shutdown -/

/-- A task as the loop leaves it. -/
structure Undisturbed (status : TaskStatus) : Prop where
  aborted : status ≠ .aborted
  cancelled : status.exit ≠ some .cancelled
  joined : status.isJoined = true → status = .joined .ok

structure Inv (s : State engine) : Prop where
  sound : s.slots.Sound
  undisturbed : s.control = .joining → ∀ i, Undisturbed (s.slots i).status
  stopping : s.control ≠ .joining → ∀ i, (s.slots i).status ≠ .running
  cause : s.control ≠ .joining →
    ∃ i, (s.slots i).status = .joined .err ∨ (s.slots i).status = .joined .panicked
  returned : s.control = .returned → s.slots.Empty

theorem inv_init (engine : RelayerEngine) : Inv (init engine) where
  sound := Slots.sound_spawn engine.tasks
  undisturbed _ _ := ⟨by simp [init, Slots.spawn, Slot.spawn],
    by simp [init, Slots.spawn, Slot.spawn, TaskStatus.exit], fun h => (by cases h)⟩
  stopping h := absurd rfl h
  cause h := absurd rfl h
  returned h := by cases h

/-- The handler of Ctrl-C does not return `Ok`. -/
theorem ctrlC_not_ok (h : Inv s) : (s.slots none).status.exit ≠ some .ok := by
  intro hexit
  have hresult : ctrlC.result (s.slots none).state = some true :=
    (h.sound none).result .ok hexit (Or.inl rfl)
  unfold ctrlC at hresult
  dsimp only at hresult
  split_ifs at hresult
  cases hresult

/-- So the set does not run empty inside the loop. -/
theorem not_empty_of_joining (h : Inv s) (hc : s.control = .joining) : ¬ s.slots.Empty := by
  intro hempty
  have hok := (h.undisturbed hc none).joined (hempty none)
  exact ctrlC_not_ok h (by rw [hok]; rfl)

/-- What an event makes of a status. -/
theorem status_of_slot_step {p : Process} {slot slot' : Slot p} {e : TaskEvent p}
    (hs : slot.step e = some slot') :
    slot'.status = slot.status ∨ slot.status.alive = true ∧ ∃ exit, slot'.status = .ended exit ∧
      (exit = .cancelled → slot.status = .aborted) := by
  rcases Slot.step_cases hs with ⟨a, t, -, -, -, rfl⟩ | ⟨ok, -, halive, -, rfl⟩ |
    ⟨-, halive, rfl⟩ | ⟨-, haborted, rfl⟩
  · exact Or.inl rfl
  · exact Or.inr ⟨halive, _, rfl, by cases ok <;> simp⟩
  · exact Or.inr ⟨halive, _, rfl, by simp⟩
  · refine Or.inr ⟨?_, _, rfl, fun _ => haborted⟩
    rw [haborted]
    rfl

/-- A property of all tasks after one of them has changed. -/
theorem forall_update {slots : Slots engine.tasks} {i : Option (Fin engine.size)}
    {slot : Slot (engine.tasks i)} {P : TaskStatus → Prop} (hslot : P slot.status)
    (h : ∀ j, P (slots j).status) (j : Option (Fin engine.size)) :
    P (Function.update slots i slot j).status := by
  by_cases hji : j = i
  · subst hji
    rw [Function.update_self]
    exact hslot
  · rw [Function.update_of_ne hji]
    exact h j

/-- A cause that was collected stays collected. -/
theorem cause_update {slots : Slots engine.tasks} {i : Option (Fin engine.size)}
    {slot : Slot (engine.tasks i)} (hi : (slots i).status.isJoined = false)
    (h : ∃ j, (slots j).status = .joined .err ∨ (slots j).status = .joined .panicked) :
    ∃ j, (Function.update slots i slot j).status = .joined .err ∨
      (Function.update slots i slot j).status = .joined .panicked := by
  obtain ⟨j, hj⟩ := h
  have hji : j ≠ i := by
    rintro rfl
    rcases hj with hj | hj <;> rw [hj] at hi <;> cases hi
  refine ⟨j, ?_⟩
  rw [Function.update_of_ne hji]
  exact hj

theorem inv_task (h : Inv s) {i : Option (Fin engine.size)} {e : TaskEvent (engine.tasks i)}
    {slot : Slot (engine.tasks i)} (hs : (s.slots i).step e = some slot) :
    Inv { s with slots := Function.update s.slots i slot } := by
  have hstatus := status_of_slot_step hs
  refine ⟨h.sound.update ((h.sound i).step hs), fun hc => forall_update ?_ (h.undisturbed hc),
    fun hc => forall_update (P := (· ≠ .running)) ?_ (h.stopping hc), fun hc => ?_, fun hc => ?_⟩
  · rcases hstatus with heq | ⟨-, exit, hexit, hcan⟩
    · rw [heq]
      exact h.undisturbed hc i
    · rw [hexit]
      refine ⟨by simp, fun hx => ?_, fun hj => by cases hj⟩
      cases hx
      exact (h.undisturbed hc i).aborted (hcan rfl)
  · rcases hstatus with heq | ⟨-, exit, hexit, -⟩
    · rw [heq]
      exact h.stopping hc i
    · rw [hexit]
      simp
  · rcases hstatus with heq | ⟨halive, -⟩
    · obtain ⟨j, hj⟩ := h.cause hc
      refine ⟨j, ?_⟩
      by_cases hji : j = i
      · subst hji
        dsimp only
        rw [Function.update_self, heq]
        exact hj
      · dsimp only
        rw [Function.update_of_ne hji]
        exact hj
    · exact cause_update (by revert halive; cases (s.slots i).status <;> simp [TaskStatus.alive,
        TaskStatus.isJoined]) (h.cause hc)
  · have hempty := h.returned hc
    refine forall_update (P := fun status => status.isJoined = true) ?_ hempty
    rcases hstatus with heq | ⟨halive, -⟩
    · rw [heq]
      exact hempty i
    · have hjoined := hempty i
      revert halive hjoined
      cases (s.slots i).status <;> simp [TaskStatus.alive, TaskStatus.isJoined]

theorem inv_step (h : Inv s) (hs : step s a = some s') : Inv s' := by
  cases moves_of_step hs with
  | task i e slot hslot => exact inv_task h hslot
  | leave i hc hi =>
    have hj := Slots.join_eq_some.2 ⟨hi, rfl⟩
    refine ⟨h.sound.join hj, fun _ => forall_update ?_ (h.undisturbed hc), fun hne => absurd hc hne,
      fun hne => absurd hc hne, fun hr => ?_⟩
    · exact ⟨by simp, by simp [TaskStatus.exit], fun _ => rfl⟩
    · exact absurd (hc.symm.trans hr) (by decide)
  | fail i exit hc hi hexit =>
    have hj := Slots.join_eq_some.2 ⟨hi, rfl⟩
    refine ⟨(h.sound.join hj).abortAll, fun hr => (by cases hr), fun _ j => ?_, fun _ => ⟨i, ?_⟩,
      fun hr => (by cases hr)⟩
    · show TaskStatus.abort _ ≠ _
      cases (Function.update s.slots i ((s.slots i).setStatus (.joined exit)) j).status <;>
        simp [TaskStatus.abort]
    · have hself : (Slots.abortAll (Function.update s.slots i
          ((s.slots i).setStatus (.joined exit))) i).status = .joined exit := by
        simp [Slots.abortAll, Slot.abort, TaskStatus.abort]
      dsimp only
      rw [hself]
      cases exit with
      | ok => exact absurd rfl hexit
      | err => exact Or.inl rfl
      | panicked => exact Or.inr rfl
      | cancelled => exact absurd (by rw [hi]; rfl) (h.undisturbed hc i).cancelled
  | collect i exit hc hi =>
    have hj := Slots.join_eq_some.2 ⟨hi, rfl⟩
    have hne : s.control ≠ .joining := by simp [hc]
    refine ⟨h.sound.join hj, fun hr => absurd hr hne,
      fun _ => forall_update (P := (· ≠ .running)) (by simp) (h.stopping hne),
      fun _ => cause_update (by rw [hi]; rfl) (h.cause hne), fun hr => ?_⟩
    exact absurd (hc.symm.trans hr) (by decide)
  | empty hc hempty => exact absurd hempty (not_empty_of_joining h hc)
  | finish hc hempty =>
    have hne : s.control ≠ .joining := by simp [hc]
    exact ⟨h.sound, fun hr => (by cases hr), fun _ => h.stopping hne, fun _ => h.cause hne,
      fun _ => hempty⟩

theorem inv_of_reach (h : Reach (ofFn step) (init engine) s) : Inv s :=
  h.invariant (inv_init engine) fun _ _ _ => inv_step

/-- **The engine shuts down only for a failure, and leaves no task behind.** -/
theorem engine_stops_only_for_failure (h : Reach (ofFn step) (init engine) s) : Supervised s :=
  have hinv := inv_of_reach h
  { own := fun i => (hinv.sound i).lives
    spared := fun hc i => ⟨(hinv.undisturbed hc i).aborted, (hinv.undisturbed hc i).cancelled,
      (hinv.undisturbed hc i).joined⟩
    cause := hinv.cause
    returned := hinv.returned }

/-- A component that returns `Ok` at once. -/
def leaver : RelayerComponent where
  State := Unit
  Action := Empty
  init := ()
  step _ a := a.elim
  own _ := true
  result _ := some true
  drop s := s
  final {_ a} := a.elim

def leaverOnly : RelayerEngine := ⟨1, fun _ => leaver⟩

/-- The component leaves, and the engine goes on until Ctrl-C. -/
def leaveThenCtrlC : List (Action leaverOnly) :=
  [.task (some ⟨0, Nat.one_pos⟩) .finish, .joinNext (some (some ⟨0, Nat.one_pos⟩)),
    .task none (.move ()), .task none .finish, .joinNext (some none), .joinNext none]

/-- The theorem on an engine whose only component leaves. -/
theorem engine_stopped_by_ctrlC : ∃ s : State leaverOnly, s.control = .returned ∧ Supervised s := by
  obtain ⟨s, hs, hc⟩ := exists_reach_of_exec step (init leaverOnly) leaveThenCtrlC
    (fun s => s.control == .returned) (by decide)
  exact ⟨s, by simpa using hc, engine_stops_only_for_failure hs⟩

/-! ### The engine returns -/

/-- Some future has returned an error (that of the Ctrl-C handler after the signal), or has
panicked. -/
def Failure (s : State engine) : Prop :=
  ∃ i, (s.slots i).result = some false ∨ (s.slots i).status.exit = some .panicked

/-- The future has returned an error, which the runtime has not noticed yet. -/
def Failing {p : Process} (slot : Slot p) : Prop :=
  slot.status.alive = true ∧ slot.result = some false

def Ended {p : Process} (slot : Slot p) : Prop := ∃ exit, slot.status = .ended exit

/-- The engine is shutting down, or will once it has collected what is over. -/
def ShutdownDue (s : State engine) : Prop :=
  s.control = .shuttingDown ∨
    ∃ i, (∃ exit, (s.slots i).status = .ended exit ∧ exit ≠ .ok) ∨ Failing (s.slots i)

theorem shutdownDue_of_failure (h : Inv s) (hfail : Failure s) :
    ShutdownDue s ∨ s.control = .returned := by
  obtain ⟨i, hi⟩ := hfail
  have hnot : (s.slots i).status.exit ≠ some .ok := by
    intro hok
    rcases hi with hi | hi
    · have hresult := (h.sound i).result .ok hok (Or.inl rfl)
      rw [hi] at hresult
      cases hresult
    · rw [hok] at hi
      cases hi
  have hexit : (s.slots i).status.alive = true → (s.slots i).status.exit ≠ some .panicked := by
    cases (s.slots i).status <;> simp [TaskStatus.alive, TaskStatus.exit]
  cases hc : s.control with
  | returned => exact Or.inr rfl
  | shuttingDown => exact Or.inl (Or.inl hc)
  | joining =>
    refine Or.inl (Or.inr ⟨i, ?_⟩)
    cases hs : (s.slots i).status with
    | running => exact Or.inr ⟨by rw [hs]; rfl, hi.resolve_right (hexit (by rw [hs]; rfl))⟩
    | aborted => exact absurd hs (h.undisturbed hc i).aborted
    | ended exit =>
      rw [hs] at hnot
      exact Or.inl ⟨exit, rfl, fun hok => hnot (congrArg some hok)⟩
    | joined exit =>
      have hok := (h.undisturbed hc i).joined (by rw [hs]; rfl)
      exact absurd (by rw [hok]; rfl) hnot

/-- Whose step brings the shutdown forward: a `join_next` of the engine, or the end of a task. -/
inductive Helper (engine : RelayerEngine)
  | join
  | stop (i : Option (Fin engine.size))

def Helper.labels : Helper engine → Set (Action engine)
  | .join => {a | ∃ i, a = .joinNext i}
  | .stop i => {.task i .finish, .task i .cancel}

open Classical in
/-- The engine collects what is over; it waits for some task to be dropped in the shutdown, and for
a failing one in the loop. -/
noncomputable def helperOf (control : Control)
    (ended alive failing : Option (Fin engine.size) → Prop) : Helper engine :=
  if ∃ i, ended i then .join
  else if h : control = .shuttingDown ∧ ∃ i, alive i then .stop h.2.choose
  else if h : ∃ i, failing i then .stop h.choose
  else .join

noncomputable def helper (s : State engine) : Helper engine :=
  helperOf s.control (fun i => Ended (s.slots i)) (fun i => (s.slots i).status.alive = true)
    fun i => Failing (s.slots i)

theorem ended_or {p : Process} (slot : Slot p) :
    slot.status.alive = true ∨ Ended slot ∨ slot.status.isJoined = true := by
  unfold Ended
  cases slot.status <;> simp [TaskStatus.alive, TaskStatus.isJoined]

theorem aborted_of_alive {status : TaskStatus} (h : status.alive = true)
    (hne : status ≠ .running) : status = .aborted := by
  cases status with
  | running => exact absurd rfl hne
  | aborted => rfl
  | ended exit => cases h
  | joined exit => cases h

theorem enabled_helper (h : Inv s) (hdue : ShutdownDue s) (hc : s.control ≠ .returned) :
    Enabled (ofFn step) (helper s).labels s := by
  unfold helper helperOf
  split_ifs with hended halive hfailing
  · obtain ⟨i, exit, hi⟩ := hended
    obtain ⟨s', hs'⟩ := exists_step_join hc hi
    exact ⟨_, ⟨some i, rfl⟩, s', hs'⟩
  · have haborted : (s.slots halive.2.choose).status = .aborted :=
      aborted_of_alive halive.2.choose_spec (h.stopping (by simp [halive.1]) _)
    exact ⟨_, Or.inr rfl, _, by simp [ofFn, step, Slots.step, Slot.step, haborted]; rfl⟩
  · obtain ⟨halive, hresult⟩ := hfailing.choose_spec
    unfold Slot.result at hresult
    exact ⟨_, Or.inl rfl, _,
      by simp [ofFn, step, Slots.step, Slot.step, halive, hresult]; rfl⟩
  · have hshut : s.control = .shuttingDown := by
      rcases hdue with hs | ⟨i, ⟨exit, hi, -⟩ | hi⟩
      · exact hs
      · exact absurd ⟨i, exit, hi⟩ hended
      · exact absurd ⟨i, hi⟩ hfailing
    have hempty : s.slots.Empty := by
      intro i
      rcases ended_or (s.slots i) with ha | hi | hj
      · exact absurd ⟨hshut, i, ha⟩ halive
      · exact absurd ⟨i, hi⟩ hended
      · exact hj
    exact ⟨_, ⟨none, rfl⟩, { s with control := .returned },
      by simp [ofFn, step, joinNext, hempty, hshut]⟩

/-- A failure elsewhere is not lost when a task changes. -/
theorem ShutdownDue.update (h : ShutdownDue s) {i : Option (Fin engine.size)}
    {slot : Slot (engine.tasks i)}
    (hi : (∃ exit, (s.slots i).status = .ended exit ∧ exit ≠ .ok) ∨ Failing (s.slots i) →
      (∃ exit, slot.status = .ended exit ∧ exit ≠ .ok) ∨ Failing slot) :
    ShutdownDue { s with slots := Function.update s.slots i slot } := by
  rcases h with hc | ⟨j, hj⟩
  · exact Or.inl hc
  · refine Or.inr ⟨j, ?_⟩
    dsimp only
    by_cases hji : j = i
    · subst hji
      rw [Function.update_self]
      exact hi hj
    · rw [Function.update_of_ne hji]
      exact hj

/-- The end of a task lowers the work of the set. -/
theorem remaining_ended {slots : Slots engine.tasks} {i : Option (Fin engine.size)}
    {slot : Slot (engine.tasks i)} {exit : Exit} (halive : (slots i).status.alive = true)
    (hended : slot.status = .ended exit) :
    Slots.remaining (Function.update slots i slot) < slots.remaining := by
  have hsum := Slots.remaining_update slots i slot
  rw [Slot.work_of_ended hended] at hsum
  have := Slot.work_of_alive halive
  omega

/-- A collected task lowers the work of the set. -/
theorem remaining_joined {slots : Slots engine.tasks} {i : Option (Fin engine.size)} {exit : Exit}
    (hi : (slots i).status = .ended exit) :
    Slots.remaining (Function.update slots i ((slots i).setStatus (.joined exit))) <
      slots.remaining := by
  have hsum := Slots.remaining_update slots i ((slots i).setStatus (.joined exit))
  rw [Slot.work_of_ended hi, Slot.work_of_joined (Slot.status_setStatus _ _)] at hsum
  omega

/-- A step of a task itself makes its future return, or keeps the helper. -/
theorem move_progress {i : Option (Fin engine.size)} {a : (engine.tasks i).Action}
    {t : (engine.tasks i).State} (hs : (engine.tasks i).step (s.slots i).state a = some t) :
    let s' : State engine := { s with slots := Function.update s.slots i ((s.slots i).setState t) }
    s'.slots.remaining < s.slots.remaining ∨
      s'.slots.remaining = s.slots.remaining ∧ helper s' = helper s := by
  intro s'
  obtain ⟨hle, hsame⟩ := Slot.work_move hs
  have hsum := Slots.remaining_update s.slots i ((s.slots i).setState t)
  by_cases heq : ((s.slots i).setState t).work = (s.slots i).work
  · refine Or.inr ⟨show Slots.remaining (Function.update _ _ _) = _ by omega, ?_⟩
    have hslot : ∀ j, (s'.slots j).status = (s.slots j).status ∧
        ((s.slots j).status.alive = true → (s'.slots j).result = (s.slots j).result) := by
      intro j
      by_cases hji : j = i
      · subst hji
        simp only [s', Function.update_self]
        exact ⟨rfl, hsame heq⟩
      · simp only [s', Function.update_of_ne hji, implies_true, and_self]
    have hended : (fun j => Ended (s'.slots j)) = fun j => Ended (s.slots j) := by
      funext j
      simp only [Ended, (hslot j).1]
    have halive : (fun j => (s'.slots j).status.alive = true) =
        fun j => (s.slots j).status.alive = true := by
      funext j
      rw [(hslot j).1]
    have hfailing : (fun j => Failing (s'.slots j)) = fun j => Failing (s.slots j) := by
      funext j
      simp only [Failing, (hslot j).1, eq_iff_iff]
      exact and_congr_right fun ha => by rw [(hslot j).2 ha]
    show helperOf s.control _ _ _ = helperOf s.control _ _ _
    rw [hended, halive, hfailing]
  · exact Or.inl (show Slots.remaining (Function.update _ _ _) < _ by omega)

theorem move_not_mem (H : Helper engine) (i : Option (Fin engine.size))
    (a : (engine.tasks i).Action) : Action.task i (.move a) ∉ H.labels := by
  cases H with
  | join =>
    rintro ⟨j, hj⟩
    cases hj
  | stop j =>
    rintro (hj | hj)
    · cases hj
    · cases hj

/-- Every step brings the engine closer to its end, or leaves it waiting for the same helper. -/
theorem ranking (engine : RelayerEngine) :
    Ranking (ofFn (@step engine)) Helper.labels (fun s => Inv s ∧ ShutdownDue s)
      (fun s => s.control = .returned) (fun s => s.slots.remaining) helper where
  enabled s h hc := enabled_helper h.1 h.2 hc
  step s a s' h hc hs := by
    obtain ⟨hinv, hdue⟩ := h
    have hinv' := inv_step hinv hs
    cases moves_of_step hs with
    | task i e slot hslot =>
      right
      rcases Slot.step_cases hslot with ⟨a, t, rfl, -, ht, rfl⟩ | ⟨ok, -, halive, hok, rfl⟩ |
        ⟨-, halive, rfl⟩ | ⟨-, haborted, rfl⟩
      · refine ⟨⟨hinv', hdue.update fun hi => ?_⟩, ?_⟩
        · exact hi.imp id fun hf => ⟨hf.1, (engine.tasks i).final hf.2 ht⟩
        · exact (move_progress ht).imp id fun hkeep => ⟨hkeep.1, hkeep.2, move_not_mem _ i a⟩
      · refine ⟨⟨hinv', hdue.update fun hi => ?_⟩, Or.inl (remaining_ended halive rfl)⟩
        rcases hi with ⟨exit, hi, -⟩ | ⟨-, hi⟩
        · rw [hi] at halive
          cases halive
        · obtain rfl : false = ok := Option.some.inj (hi.symm.trans hok)
          exact Or.inl ⟨.err, rfl, by simp⟩
      · exact ⟨⟨hinv', hdue.update fun _ => Or.inl ⟨.panicked, rfl, by simp⟩⟩,
          Or.inl (remaining_ended halive rfl)⟩
      · exact ⟨⟨hinv', hdue.update fun _ => Or.inl ⟨.cancelled, rfl, by simp⟩⟩,
          Or.inl (remaining_ended (by rw [haborted]; rfl) rfl)⟩
    | leave i hc hi =>
      refine Or.inr ⟨⟨hinv', hdue.update fun h => ?_⟩, Or.inl (remaining_joined hi)⟩
      rcases h with ⟨exit, hexit, hne⟩ | ⟨halive, -⟩
      · rw [hi] at hexit
        cases hexit
        exact absurd rfl hne
      · rw [hi] at halive
        cases halive
    | fail i exit hc hi hexit =>
      refine Or.inr ⟨⟨hinv', Or.inl rfl⟩, Or.inl ?_⟩
      dsimp only
      rw [Slots.remaining_abortAll]
      exact remaining_joined hi
    | collect i exit hc hi => exact Or.inr ⟨⟨hinv', Or.inl hc⟩, Or.inl (remaining_joined hi)⟩
    | empty hc hempty => exact absurd hempty (not_empty_of_joining hinv hc)
    | finish hc hempty => exact Or.inl rfl

/-- Once a failure is there, a fair execution leads to the end of the engine. -/
theorem returns_of_failure (ρ : Execution (ofFn (@step engine)))
    (hfair : ∀ H : Helper engine, ρ.FairTo H.labels) {n : ℕ} (hinv : Inv (ρ.state n))
    (h : ShutdownDue (ρ.state n) ∨ (ρ.state n).control = .returned) :
    ∃ m ≥ n, (ρ.state m).control = .returned := by
  rcases h with hdue | hc
  · exact (ranking engine).leadsTo ρ hfair ⟨hinv, hdue⟩
  · exact ⟨n, le_refl n, hc⟩

/-- **A failed task or Ctrl-C ends the engine.**  In an execution that is fair to `join_next` and to
the ending of the tasks, the engine returns once a component has returned an error or panicked, or
Ctrl-C was received. -/
theorem engine_returns_once_failed (ρ : Execution (ofFn (@step engine)))
    (h0 : ρ.state 0 = init engine) (hfair : ∀ H : Helper engine, ρ.FairTo H.labels) {n : ℕ}
    (hfail : Failure (ρ.state n)) : ∃ m ≥ n, (ρ.state m).control = .returned := by
  have hinv : Inv (ρ.state n) := inv_of_reach (h0 ▸ ρ.reach n)
  exact returns_of_failure ρ hfair hinv (shutdownDue_of_failure hinv hfail)

/-- A run that stops when the engine has returned is fair to it. -/
theorem step_of_returned (hc : s.control = .returned) (hempty : s.slots.Empty)
    {H : Helper engine} (ha : a ∈ H.labels) : step s a = none := by
  cases H with
  | join =>
    obtain ⟨i, rfl⟩ := ha
    cases i <;> simp [step, joinNext, hc]
  | stop i =>
    have hjoined := hempty i
    rcases ha with rfl | rfl <;> revert hjoined <;> cases hi : (s.slots i).status <;>
      simp [step, Slots.step, Slot.step, hi, TaskStatus.alive, TaskStatus.isJoined]

/-- The theorem on the engine whose only component leaves before Ctrl-C: its run stops when the
engine has returned, which is fair. -/
theorem engine_returns_after_ctrlC : ∃ ρ : Execution (ofFn (@step leaverOnly)), ∃ m,
    ρ.state 0 = init leaverOnly ∧ (ρ.state m).control = .returned := by
  obtain ⟨s, hs, hp⟩ := Option.map_eq_some_iff.1
    (show (exec step (init leaverOnly) leaveThenCtrlC).map
      (fun s => decide (s.control = .returned ∧ s.slots.Empty)) = some true by decide)
  obtain ⟨hc, hempty⟩ := of_decide_eq_true hp
  have hfair : ∀ H : Helper leaverOnly, (ofExec hs).FairTo H.labels :=
    fun H => fairTo_ofExec hs fun _ => step_of_returned hc hempty
  have hfailed : Failure ((ofExec hs).state 3) := by
    refine ⟨none, Or.inl ?_⟩
    show ((stateAfter step (init leaverOnly) leaveThenCtrlC 3).slots none).result = some false
    decide
  obtain ⟨m, -, hm⟩ := engine_returns_once_failed (ofExec hs) (ofExec_zero hs) hfair hfailed
  exact ⟨ofExec hs, m, ofExec_zero hs, hm⟩

end Engine
end RelayerCore
