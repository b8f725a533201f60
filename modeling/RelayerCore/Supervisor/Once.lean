import RelayerCore.Supervisor.Restart

/-!
# No worker runs twice

A restarted worker is spawned before the old handle is joined, and a failed rebuild puts its name
back into the channel.  No step makes a second holder of a name, so a name never has two live
threads, nor a live thread beside a waiting report or a rebuild.
-/

namespace RelayerCore
namespace Supervisor

open Machine

/-- The live threads of a name, its waiting reports, and one for a rebuild in progress. -/
def copies (s : State) (name : WorkerName) : ℕ :=
  s.threads.countP (Thread.live name) + s.channel.count name +
    (if s.control.rebuilding = some name then 1 else 0)

variable {builders : WorkerBuilders} {s : State}

theorem copies_le_tokens (builders : WorkerBuilders) (s : State) (name : WorkerName) :
    copies s name ≤ tokens builders s name := by
  unfold copies tokens outside
  rw [holding_eq, List.count_append]
  by_cases h : s.control.rebuilding = some name
  · have hone : s.control.rebuilding.toList.count name = 1 := by simp [h]
    rw [if_pos h, hone]
    omega
  · rw [if_neg h]
    omega

/-- **The supervisor never runs a worker twice**, and it finds the builder of every name that is
reported to it. -/
theorem supervisor_runs_none_twice (h : Reach (ofFn (step builders)) init s) :
    (∀ name, copies s name ≤ 1) ∧ (∀ name, s.control = .received name → name ∈ builders.names) ∧
      s.control ≠ .panicked := by
  have hinv := inv_of_reach h
  refine ⟨fun name => ?_, fun name => mem_names_of_received hinv, hinv.noPanic⟩
  calc copies s name ≤ tokens builders s name := copies_le_tokens builders s name
    _ ≤ builders.names.count name := hinv.tokens_le name
    _ ≤ 1 := List.nodup_iff_count_le_one.mp builders.nodup name

/-- The subscriber's runtime fails, its thread reports, and the supervisor, having taken the report,
builds it anew: the rebuild is the only copy. -/
theorem supervisor_runs_none_twice_rebuilding :
    ∃ s, s.control = .building "subscriber" ∧ s.threads = [⟨"subscriber", .done⟩] ∧
      copies s "subscriber" ≤ 1 ∧ s.control ≠ .panicked := by
  obtain ⟨s, hs, hp⟩ := exists_reach_of_exec (step subscriberOnly) init
    [.boot true, .next, .built true, .next, .runtime 0 false, .report 0, .exit 0, .recv,
      .restart]
    (fun s => s.control == .building "subscriber" && s.threads == [⟨"subscriber", .done⟩])
    (by decide)
  rw [Bool.and_eq_true, beq_iff_eq, beq_iff_eq] at hp
  obtain ⟨honce, -, hpanic⟩ := supervisor_runs_none_twice hs
  exact ⟨s, hp.1, hp.2, honce "subscriber", hpanic⟩

end Supervisor
end RelayerCore
