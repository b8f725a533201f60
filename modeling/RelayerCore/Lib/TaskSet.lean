import Mathlib.Data.Fintype.Basic
import RelayerCore.Lib.Machine

/-!
# Sets of spawned tasks

A runtime lets spawned tasks take their steps in any order; one task owns the others as a set, from
which it collects those that are over, and which it can abort as a whole.

A task is a machine of its own (`Process`): it takes the steps it owns, or takes part in them; the
others are steps of its environment, which go on when the task is over.  A task that panics or is
cancelled is dropped, with what it owns.  A `Slot` is a spawned task with what the set knows about
it.  A slot keeps to the lives of its process (`Slot.Sound`), so that an invariant of a process that
a drop keeps holds in every set.
-/

namespace TaskSet

open Machine

/-- A future to be spawned, with its environment; `result` is `true` for `Ok`, and `drop` is what a
future leaves that is dropped before it has returned. -/
structure Process where
  State : Type
  Action : Type
  init : State
  step : State → Action → Option State
  own : Action → Bool
  result : State → Option Bool
  drop : State → State
  final : ∀ {s a s' ok}, result s = some ok → step s a = some s' → result s' = some ok

/-- The states a process gets to on its own, and those it gets to after it was dropped, when only
its environment goes on. -/
inductive Process.Lives (p : Process) : Bool → p.State → Prop
  | undropped {s : p.State} (h : Reach (ofFn p.step) p.init s) : p.Lives false s
  | dropped {s s' : p.State} (h : Reach (ofFn p.step) p.init s)
      (h' : Reach (when (ofFn p.step) fun _ a => p.own a = false) (p.drop s) s') : p.Lives true s'

theorem Process.Lives.undropped_reach {p : Process} {dropped : Bool} {s : p.State}
    (h : p.Lives dropped s) (hd : dropped = false) : Reach (ofFn p.step) p.init s := by
  cases h with
  | undropped h => exact h
  | dropped h h' => cases hd

/-- What a process keeps, and a drop keeps, holds as long as it lives. -/
theorem Process.Lives.invariant {p : Process} {P : p.State → Prop} {dropped : Bool} {s : p.State}
    (h : p.Lives dropped s) (hinit : P p.init)
    (hstep : ∀ s a s', P s → p.step s a = some s' → P s') (hdrop : ∀ s, P s → P (p.drop s)) :
    P s := by
  cases h with
  | undropped h => exact h.invariant hinit hstep
  | dropped h h' =>
    exact h'.invariant (hdrop _ (h.invariant hinit hstep)) fun s a s' hP hs => hstep s a s' hP hs.2

/-- How a task ended. -/
inductive Exit
  | ok
  | err
  | panicked
  | cancelled
  deriving DecidableEq

/-- A task that was told to abort runs on until it is dropped; one that is over stays in the set
until it is joined. -/
inductive TaskStatus
  | running
  | aborted
  | ended (exit : Exit)
  | joined (exit : Exit)
  deriving DecidableEq

namespace TaskStatus

/-- The task has not ended. -/
def alive : TaskStatus → Bool
  | .running | .aborted => true
  | _ => false

def isJoined : TaskStatus → Bool
  | .joined _ => true
  | _ => false

def abort : TaskStatus → TaskStatus
  | .running => .aborted
  | status => status

/-- How the task ended, if it has. -/
def exit : TaskStatus → Option Exit
  | .ended exit | .joined exit => some exit
  | _ => none

/-- The task was dropped before it had returned. -/
def dropped : TaskStatus → Bool
  | .ended exit | .joined exit => exit = .panicked ∨ exit = .cancelled
  | _ => false

@[simp] theorem exit_abort (status : TaskStatus) : status.abort.exit = status.exit := by
  cases status <;> rfl

@[simp] theorem isJoined_abort (status : TaskStatus) : status.abort.isJoined = status.isJoined := by
  cases status <;> rfl

@[simp] theorem alive_abort (status : TaskStatus) : status.abort.alive = status.alive := by
  cases status <;> rfl

@[simp] theorem dropped_abort (status : TaskStatus) : status.abort.dropped = status.dropped := by
  cases status <;> rfl

theorem dropped_of_alive {status : TaskStatus} (h : status.alive = true) :
    status.dropped = false := by
  cases status with
  | running | aborted => rfl
  | ended exit | joined exit => cases h

theorem exit_of_dropped {status : TaskStatus} (h : status.dropped = true) :
    status.exit = some .panicked ∨ status.exit = some .cancelled := by
  cases status with
  | running | aborted => cases h
  | ended exit | joined exit => simpa [dropped, TaskStatus.exit] using h

end TaskStatus

/-- A spawned task. -/
structure Slot (p : Process) where
  state : p.State
  status : TaskStatus

/-- What can happen to a task. -/
inductive TaskEvent (p : Process)
  | move (a : p.Action)
  | finish
  | panic
  | cancel

namespace Slot

variable {p : Process}

def spawn (p : Process) : Slot p := ⟨p.init, .running⟩

def setState (slot : Slot p) (state : p.State) : Slot p := { slot with state }

def setStatus (slot : Slot p) (status : TaskStatus) : Slot p := { slot with status }

/-- The task is over, and what is left of its future is dropped. -/
def drop (slot : Slot p) (exit : Exit) : Slot p :=
  { state := p.drop slot.state, status := .ended exit }

@[simp] theorem state_setState (slot : Slot p) (state : p.State) :
    (slot.setState state).state = state := rfl

@[simp] theorem status_setState (slot : Slot p) (state : p.State) :
    (slot.setState state).status = slot.status := rfl

@[simp] theorem state_setStatus (slot : Slot p) (status : TaskStatus) :
    (slot.setStatus status).state = slot.state := rfl

@[simp] theorem status_setStatus (slot : Slot p) (status : TaskStatus) :
    (slot.setStatus status).status = status := rfl

def abort (slot : Slot p) : Slot p := slot.setStatus slot.status.abort

def step (slot : Slot p) : TaskEvent p → Option (Slot p)
  | .move a =>
    if p.own a = true ∧ slot.status.alive = false then none
    else (p.step slot.state a).map slot.setState
  | .finish =>
    if slot.status.alive then
      (p.result slot.state).map fun ok => slot.setStatus (.ended (if ok then .ok else .err))
    else none
  | .panic => if slot.status.alive then some (slot.drop .panicked) else none
  | .cancel => if slot.status = .aborted then some (slot.drop .cancelled) else none

/-- The exit of a task that is over, and the slot without it. -/
def join (slot : Slot p) : Option (Exit × Slot p) :=
  match slot.status with
  | .ended exit => some (exit, slot.setStatus (.joined exit))
  | _ => none

theorem join_eq_some {slot slot' : Slot p} {exit : Exit} :
    slot.join = some (exit, slot') ↔
      slot.status = .ended exit ∧ slot' = slot.setStatus (.joined exit) := by
  unfold join
  split
  · rename_i e he
    constructor
    · intro h
      cases h
      exact ⟨he, rfl⟩
    · rintro ⟨h, rfl⟩
      rw [he] at h
      cases h
      rfl
  · rename_i hno
    exact iff_of_false (by simp) fun h => hno exit h.1

/-- The result of the future, once it has returned. -/
def result (slot : Slot p) : Option Bool := p.result slot.state

/-- A task keeps to the lives of its process, and ends with its result. -/
structure Sound (slot : Slot p) : Prop where
  lives : p.Lives slot.status.dropped slot.state
  result : ∀ exit, slot.status.exit = some exit → exit = .ok ∨ exit = .err →
    slot.result = some (decide (exit = .ok))

theorem sound_spawn (p : Process) : (spawn p).Sound :=
  ⟨.undropped .refl, fun _ h => by cases h⟩

/-- A task that is alive was not dropped. -/
theorem Sound.reach {slot : Slot p} (h : slot.Sound) (halive : slot.status.alive = true) :
    Reach (ofFn p.step) p.init slot.state :=
  h.lives.undropped_reach (TaskStatus.dropped_of_alive halive)

theorem Sound.abort {slot : Slot p} (h : slot.Sound) : slot.abort.Sound := by
  refine ⟨?_, fun exit hexit => h.result exit ?_⟩
  · simpa [Slot.abort] using h.lives
  · simpa [Slot.abort] using hexit

theorem Sound.join {slot slot' : Slot p} {exit : Exit} (h : slot.Sound)
    (hj : slot.join = some (exit, slot')) : slot'.Sound := by
  obtain ⟨hs, rfl⟩ := join_eq_some.1 hj
  refine ⟨?_, fun exit' hexit => h.result exit' ?_⟩
  · have hlives := h.lives
    rw [hs] at hlives
    exact hlives
  · rw [hs]
    exact hexit

/-- What can happen, case by case. -/
theorem step_cases {slot slot' : Slot p} {e : TaskEvent p} (hs : slot.step e = some slot') :
    (∃ a s, e = .move a ∧ (p.own a = true → slot.status.alive = true) ∧
      p.step slot.state a = some s ∧ slot' = slot.setState s) ∨
    (∃ ok, e = .finish ∧ slot.status.alive = true ∧ p.result slot.state = some ok ∧
      slot' = slot.setStatus (.ended (if ok then .ok else .err))) ∨
    (e = .panic ∧ slot.status.alive = true ∧ slot' = slot.drop .panicked) ∨
    (e = .cancel ∧ slot.status = .aborted ∧ slot' = slot.drop .cancelled) := by
  cases e with
  | move a =>
    obtain ⟨hown, hs⟩ := Option.ite_none_left_eq_some.1 hs
    obtain ⟨s, hmove, rfl⟩ := Option.map_eq_some_iff.1 hs
    exact Or.inl ⟨a, s, rfl, by simpa using hown, hmove, rfl⟩
  | finish =>
    obtain ⟨halive, hs⟩ := Option.ite_none_right_eq_some.1 hs
    obtain ⟨ok, hok, rfl⟩ := Option.map_eq_some_iff.1 hs
    exact Or.inr (Or.inl ⟨ok, rfl, halive, hok, rfl⟩)
  | panic =>
    obtain ⟨halive, hs⟩ := Option.ite_none_right_eq_some.1 hs
    cases hs
    exact Or.inr (Or.inr (Or.inl ⟨rfl, halive, rfl⟩))
  | cancel =>
    obtain ⟨haborted, hs⟩ := Option.ite_none_right_eq_some.1 hs
    cases hs
    exact Or.inr (Or.inr (Or.inr ⟨rfl, haborted, rfl⟩))

/-- A step of the task, or of its environment, goes on with its life. -/
theorem Sound.move {slot : Slot p} (h : slot.Sound) {a : p.Action} {t : p.State}
    (hown : p.own a = true → slot.status.alive = true) (hs : p.step slot.state a = some t) :
    (slot.setState t).Sound := by
  refine ⟨?_, fun exit hexit hor => p.final (h.result exit hexit hor) hs⟩
  show p.Lives slot.status.dropped t
  cases hd : slot.status.dropped with
  | false => exact .undropped (.tail (h.lives.undropped_reach hd) hs)
  | true =>
    have henv : p.own a = false := by
      by_contra hno
      have hundropped := TaskStatus.dropped_of_alive (hown (by simpa using hno))
      rw [hd] at hundropped
      cases hundropped
    have hlives := h.lives
    rw [hd] at hlives
    cases hlives with
    | dropped hreach hafter => exact .dropped hreach (.tail hafter ⟨henv, hs⟩)

/-- A task that is dropped has only its environment before it. -/
theorem Sound.drop {slot : Slot p} (h : slot.Sound) (halive : slot.status.alive = true)
    {exit : Exit} (hexit : exit = .panicked ∨ exit = .cancelled) : (slot.drop exit).Sound := by
  refine ⟨?_, fun exit' hexit' hor => ?_⟩
  · have hdropped : (TaskStatus.ended exit).dropped = true := decide_eq_true hexit
    show p.Lives (TaskStatus.ended exit).dropped (p.drop slot.state)
    rw [hdropped]
    exact .dropped (h.reach halive) .refl
  · cases hexit'
    rcases hexit with rfl | rfl <;> simp at hor

theorem Sound.step {slot slot' : Slot p} {e : TaskEvent p} (h : slot.Sound)
    (hs : slot.step e = some slot') : slot'.Sound := by
  rcases step_cases hs with ⟨a, s, -, hown, hmove, rfl⟩ | ⟨ok, -, halive, hok, rfl⟩ |
    ⟨-, halive, rfl⟩ | ⟨-, haborted, rfl⟩
  · exact h.move hown hmove
  · refine ⟨?_, fun exit hexit _ => ?_⟩
    · have hundropped : (TaskStatus.ended (if ok then .ok else .err)).dropped = false := by
        cases ok <;> rfl
      show p.Lives (TaskStatus.ended (if ok then .ok else .err)).dropped slot.state
      rw [hundropped]
      exact .undropped (h.reach halive)
    · cases hexit
      cases ok <;> exact hok
  · exact h.drop halive (Or.inl rfl)
  · exact h.drop (by rw [haborted]; rfl) (Or.inr rfl)

end Slot

/-! ### The set -/

variable {ι : Type} [DecidableEq ι] {tasks : ι → Process}

/-- The slots of a family of tasks. -/
abbrev Slots (tasks : ι → Process) := (i : ι) → Slot (tasks i)

namespace Slots

def spawn (tasks : ι → Process) : Slots tasks := fun i => Slot.spawn (tasks i)

def abortAll (slots : Slots tasks) : Slots tasks := fun i => (slots i).abort

/-- Something happens to one of the tasks. -/
def step (slots : Slots tasks) (i : ι) (e : TaskEvent (tasks i)) : Option (Slots tasks) :=
  ((slots i).step e).map (Function.update slots i)

/-- One of the tasks that are over is taken out of the set. -/
def join (slots : Slots tasks) (i : ι) : Option (Exit × Slots tasks) :=
  (slots i).join.map fun r => (r.1, Function.update slots i r.2)

/-- No task is left in the set. -/
def Empty (slots : Slots tasks) : Prop := ∀ i, (slots i).status.isJoined = true

instance [Fintype ι] (slots : Slots tasks) : Decidable slots.Empty :=
  inferInstanceAs (Decidable (∀ i, (slots i).status.isJoined = true))

theorem step_eq_some {slots slots' : Slots tasks} {i : ι} {e : TaskEvent (tasks i)} :
    slots.step i e = some slots' ↔
      ∃ slot, (slots i).step e = some slot ∧ slots' = Function.update slots i slot := by
  simp [step, eq_comm]

theorem join_eq_some {slots slots' : Slots tasks} {i : ι} {exit : Exit} :
    slots.join i = some (exit, slots') ↔ (slots i).status = .ended exit ∧
      slots' = Function.update slots i ((slots i).setStatus (.joined exit)) := by
  unfold join
  simp only [Option.map_eq_some_iff, Prod.mk.injEq, Prod.exists]
  constructor
  · rintro ⟨e, slot, hj, rfl, rfl⟩
    obtain ⟨hs, rfl⟩ := Slot.join_eq_some.1 hj
    exact ⟨hs, rfl⟩
  · rintro ⟨hs, rfl⟩
    exact ⟨exit, _, Slot.join_eq_some.2 ⟨hs, rfl⟩, rfl, rfl⟩

/-- Every task keeps to the runs of its process. -/
def Sound (slots : Slots tasks) : Prop := ∀ i, (slots i).Sound

omit [DecidableEq ι] in
theorem sound_spawn (tasks : ι → Process) : Sound (spawn tasks) :=
  fun i => Slot.sound_spawn (tasks i)

omit [DecidableEq ι] in
theorem Sound.abortAll {slots : Slots tasks} (h : slots.Sound) : slots.abortAll.Sound :=
  fun i => (h i).abort

theorem Sound.update {slots : Slots tasks} (h : slots.Sound) {i : ι} {slot : Slot (tasks i)}
    (hslot : slot.Sound) : Slots.Sound (Function.update slots i slot) := by
  intro j
  by_cases hji : j = i
  · subst hji
    rw [Function.update_self]
    exact hslot
  · rw [Function.update_of_ne hji]
    exact h j

theorem Sound.join {slots slots' : Slots tasks} {i : ι} {exit : Exit} (h : slots.Sound)
    (hj : slots.join i = some (exit, slots')) : slots'.Sound := by
  obtain ⟨hs, rfl⟩ := join_eq_some.1 hj
  exact h.update ((h i).join (Slot.join_eq_some.2 ⟨hs, rfl⟩))

end Slots

/-! ### How far a set is from being empty -/

/-- The steps a task has before it: to return, to end, and to be joined. -/
def Slot.work {p : Process} (slot : Slot p) : ℕ :=
  if slot.status.alive then if slot.result.isSome then 2 else 3
  else if slot.status.isJoined then 0 else 1

section Work

variable {p : Process} {slot slot' : Slot p}

theorem Slot.work_of_alive (h : slot.status.alive = true) : 2 ≤ slot.work := by
  unfold Slot.work
  rw [if_pos h]
  split_ifs <;> simp

theorem Slot.work_of_ended {exit : Exit} (h : slot.status = .ended exit) : slot.work = 1 := by
  simp [Slot.work, h, TaskStatus.alive, TaskStatus.isJoined]

theorem Slot.work_of_joined {exit : Exit} (h : slot.status = .joined exit) : slot.work = 0 := by
  simp [Slot.work, h, TaskStatus.alive, TaskStatus.isJoined]

/-- A step of the task itself keeps its status and its result, or makes it return. -/
theorem Slot.work_move {a : p.Action} {s : p.State} (h : p.step slot.state a = some s) :
    (slot.setState s).work ≤ slot.work ∧
      ((slot.setState s).work = slot.work → slot.status.alive = true →
        p.result s = slot.result) := by
  unfold Slot.work Slot.result Slot.setState
  cases hr : p.result slot.state with
  | some ok =>
    rw [p.final hr h]
    simp
  | none =>
    cases hr' : p.result s with
    | some ok =>
      cases slot.status.alive <;> simp
    | none => simp

end Work

namespace Slots

variable [Fintype ι]

/-- The steps until the set is empty. -/
def remaining (slots : Slots tasks) : ℕ := ∑ i, (slots i).work

theorem remaining_update (slots : Slots tasks) (i : ι) (slot : Slot (tasks i)) :
    remaining (Function.update slots i slot) + (slots i).work = remaining slots + slot.work := by
  unfold remaining
  rw [← Finset.add_sum_erase _ _ (Finset.mem_univ i),
    ← Finset.add_sum_erase (a := i) (s := Finset.univ) (f := fun j => (slots j).work)
      (Finset.mem_univ i), Function.update_self]
  have hrest : ∑ j ∈ Finset.univ.erase i, (Function.update slots i slot j).work =
      ∑ j ∈ Finset.univ.erase i, (slots j).work := by
    refine Finset.sum_congr rfl fun j hj => ?_
    rw [Function.update_of_ne (Finset.ne_of_mem_erase hj)]
  rw [hrest]
  omega

omit [DecidableEq ι] in
@[simp] theorem remaining_abortAll (slots : Slots tasks) :
    remaining slots.abortAll = remaining slots := by
  refine Finset.sum_congr rfl fun i _ => ?_
  unfold Slot.work
  show (if (slots i).status.abort.alive then _
    else if (slots i).status.abort.isJoined then 0 else 1) = _
  rw [TaskStatus.alive_abort, TaskStatus.isJoined_abort]
  rfl

end Slots

end TaskSet
