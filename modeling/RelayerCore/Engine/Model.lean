import Mathlib.Data.Fintype.Option
import RelayerCore.Lib.TaskSet

/-!
# The relayer engine (`relayer-engine/src/lib.rs`)

`start_and_wait_for_shutdown` spawns the components into a `JoinSet`, with one more task that waits
for Ctrl-C, and collects them.  A component that returns `Ok` only leaves; the first one that
returns an error or panics makes the engine abort the others, collect them, and return.

The components are arbitrary processes.  Their steps, the steps of the runtime (a task is over, a
task panics, an aborted task is dropped) and those of the engine come in any order.
-/

namespace RelayerCore
namespace Engine

open TaskSet Machine

/-- `RelayerComponent`: the future of `process`. -/
abbrev RelayerComponent := Process

/-- The task that waits for Ctrl-C: with the signal, or without the handler, it ends in an error. -/
def ctrlC : Process where
  State := Bool
  Action := Unit
  init := false
  step received _ := if received then none else some true
  own _ := false
  result received := if received then some false else none
  drop received := received
  final := by
    intro received a received' ok hok hs
    cases received with
    | true => cases hs
    | false => cases hok

structure RelayerEngine where
  size : ℕ
  components : Fin size → RelayerComponent

/-- What `spawn_tasks` spawns: the components and, as `none`, the handler of Ctrl-C. -/
def RelayerEngine.tasks (engine : RelayerEngine) : Option (Fin engine.size) → Process
  | some i => engine.components i
  | none => ctrlC

variable {engine : RelayerEngine}

/-- Where `start_and_wait_for_shutdown` stands: in the loop around `join_next`, in `shutdown`, or at
its end. -/
inductive Control
  | joining
  | shuttingDown
  | returned
  deriving DecidableEq

structure State (engine : RelayerEngine) where
  control : Control
  slots : Slots engine.tasks

/-- `spawn_tasks`, which never fails, and the first `join_next`. -/
def init (engine : RelayerEngine) : State engine := ⟨.joining, Slots.spawn engine.tasks⟩

inductive Action (engine : RelayerEngine)
  | task (i : Option (Fin engine.size)) (e : TaskEvent (engine.tasks i))
  | joinNext (i : Option (Option (Fin engine.size)))

/-- `join_next`: one of the tasks that are over, or `None` from an empty set. -/
def joinNext (s : State engine) : Option (Option (Fin engine.size)) → Option (State engine)
  | some i =>
    match s.control with
    | .joining =>
      (s.slots.join i).map fun (exit, slots) =>
        if exit = .ok then { s with slots }
        else { control := .shuttingDown, slots := slots.abortAll }
    | .shuttingDown => (s.slots.join i).map fun (_, slots) => { s with slots }
    | .returned => none
  | none =>
    if s.slots.Empty then
      match s.control with
      | .joining => some { s with control := .shuttingDown }
      | .shuttingDown => some { s with control := .returned }
      | .returned => none
    else none

def step (s : State engine) : Action engine → Option (State engine)
  | .task i e => (s.slots.step i e).map fun slots => { s with slots }
  | .joinNext i => joinNext s i

/-! ### What a step can do -/

/-- The steps, case by case. -/
inductive Moves (s : State engine) : Action engine → State engine → Prop
  | task (i : Option (Fin engine.size)) (e : TaskEvent (engine.tasks i))
      (slot : Slot (engine.tasks i)) (hslot : (s.slots i).step e = some slot) :
      Moves s (.task i e) { s with slots := Function.update s.slots i slot }
  | leave (i : Option (Fin engine.size)) (hc : s.control = .joining)
      (hi : (s.slots i).status = .ended .ok) :
      Moves s (.joinNext (some i))
        { s with slots := Function.update s.slots i ((s.slots i).setStatus (.joined .ok)) }
  | fail (i : Option (Fin engine.size)) (exit : Exit) (hc : s.control = .joining)
      (hi : (s.slots i).status = .ended exit) (hexit : exit ≠ .ok) :
      Moves s (.joinNext (some i))
        { control := .shuttingDown
          slots := Slots.abortAll
            (Function.update s.slots i ((s.slots i).setStatus (.joined exit))) }
  | collect (i : Option (Fin engine.size)) (exit : Exit) (hc : s.control = .shuttingDown)
      (hi : (s.slots i).status = .ended exit) :
      Moves s (.joinNext (some i))
        { s with slots := Function.update s.slots i ((s.slots i).setStatus (.joined exit)) }
  | empty (hc : s.control = .joining) (hempty : s.slots.Empty) :
      Moves s (.joinNext none) { s with control := .shuttingDown }
  | finish (hc : s.control = .shuttingDown) (hempty : s.slots.Empty) :
      Moves s (.joinNext none) { s with control := .returned }

theorem moves_of_step {s s' : State engine} {a : Action engine} (hs : step s a = some s') :
    Moves s a s' := by
  cases a with
  | task i e =>
    obtain ⟨slots, hslots, rfl⟩ := Option.map_eq_some_iff.1 hs
    obtain ⟨slot, hslot, rfl⟩ := Slots.step_eq_some.1 hslots
    exact .task i e slot hslot
  | joinNext o =>
    change joinNext s o = some s' at hs
    cases o with
    | some i =>
      simp only [joinNext] at hs
      split at hs
      · rename_i hc
        obtain ⟨⟨exit, slots⟩, hj, rfl⟩ := Option.map_eq_some_iff.1 hs
        obtain ⟨hi, rfl⟩ := Slots.join_eq_some.1 hj
        dsimp only
        split_ifs with hexit
        · subst hexit
          exact .leave i hc hi
        · exact .fail i exit hc hi hexit
      · rename_i hc
        obtain ⟨⟨exit, slots⟩, hj, rfl⟩ := Option.map_eq_some_iff.1 hs
        obtain ⟨hi, rfl⟩ := Slots.join_eq_some.1 hj
        exact .collect i exit hc hi
      · cases hs
    | none =>
      obtain ⟨hempty, hs⟩ := Option.ite_none_right_eq_some.1 hs
      split at hs <;> cases hs
      · rename_i hc
        exact .empty hc hempty
      · rename_i hc
        exact .finish hc hempty

/-- A task that is over can be collected until the engine returns. -/
theorem exists_step_join {s : State engine} {i : Option (Fin engine.size)} {exit : Exit}
    (hc : s.control ≠ .returned) (hi : (s.slots i).status = .ended exit) :
    ∃ s', step s (.joinNext (some i)) = some s' := by
  have hj := Slots.join_eq_some.2 ⟨hi, rfl⟩
  cases hcontrol : s.control with
  | joining => exact ⟨_, by simp only [step, joinNext, hcontrol, hj, Option.map_some]; rfl⟩
  | shuttingDown => exact ⟨_, by simp only [step, joinNext, hcontrol, hj, Option.map_some]; rfl⟩
  | returned => exact absurd hcontrol hc

end Engine
end RelayerCore
