import RelayerCore.AmplifierApi.Client

/-!
# One round of the subscriber (`Subscriber::subscribe`)

A round asks the publisher for the last task it holds, requests the tasks after it, sorts them by
timestamp and hands the batch to the publisher.  The sort is `sort_unstable_by_key`, so tasks with
one timestamp may come out in any order.
-/

namespace RelayerCore
namespace Subscriber

/-- What a round failed at. -/
inductive Failure
  | peekLast
  | call (cause : CallError)
  | publishBatch
  deriving DecidableEq

/-- The message the failure is wrapped in. -/
def Failure.wrap : Failure → String
  | .peekLast => "could not get last retrieved task id"
  | .call (.build _) => "could not build amplifier request"
  | .call (.send _) => "could not sent amplifier api request"
  | .call (.json _) => "amplifier api failed"
  | .call (.response _) => "failed to decode response"
  | .publishBatch => "could not publish tasks to queue"

/-- The request of a round. -/
def getChainsRequest (chain : String) (limitItems : UInt8) (lastTaskId : Option TaskItemId) :
    GetChains :=
  { chain := .new chain, after := lastTaskId, limit := some limitItems }

/-- `tasks.sort_unstable_by_key(|task| task.timestamp)` can turn `tasks` into `sorted`. -/
def SortedByTimestamp (tasks sorted : List TaskItem) : Prop :=
  sorted.Perm tasks ∧ sorted.Pairwise fun s t => s.timestamp ≤ t.timestamp

instance (tasks sorted : List TaskItem) : Decidable (SortedByTimestamp tasks sorted) := by
  unfold SortedByTimestamp
  infer_instance

/-- The timestamps increase strictly along the list. -/
def InOrder (tasks : List TaskItem) : Prop := tasks.Pairwise fun s t => s.timestamp < t.timestamp

instance (tasks : List TaskItem) : Decidable (InOrder tasks) := by
  unfold InOrder
  infer_instance

/-- A list in order has only one sorting. -/
theorem SortedByTimestamp.eq_of_inOrder {tasks sorted : List TaskItem}
    (h : SortedByTimestamp tasks sorted) (hin : InOrder tasks) : sorted = tasks := by
  have hnodup : (tasks.map TaskItem.timestamp).Nodup :=
    (List.pairwise_map.2 hin).imp fun hlt => ne_of_lt hlt
  refine h.1.eq_of_pairwise ?_ h.2 (hin.imp le_of_lt)
  intro s t hs ht hst hts
  exact List.inj_on_of_nodup_map hnodup (h.1.mem_iff.1 hs) ht (le_antisymm hst hts)

/-- A list out of order can be sorted into another one. -/
theorem exists_sortedByTimestamp_ne {tasks : List TaskItem} (hnodup : tasks.Nodup)
    (hin : ¬ InOrder tasks) : ∃ sorted, SortedByTimestamp tasks sorted ∧ sorted ≠ tasks := by
  let le : TaskItem → TaskItem → Bool := fun s t => s.timestamp ≤ t.timestamp
  have htrans : ∀ a b c, le a b → le b c → le a c := by
    intro a b c hab hbc
    simp only [le, decide_eq_true_eq] at *
    exact hab.trans hbc
  have htotal : ∀ a b, le a b || le b a := by
    intro a b
    simpa [le] using le_total a.timestamp b.timestamp
  -- a stable sort of the reversed list puts tasks with one timestamp in the opposite order
  refine ⟨tasks.reverse.mergeSort le, ⟨?_, ?_⟩, fun heq => hin ?_⟩
  · exact (List.mergeSort_perm _ _).trans (List.reverse_perm _)
  · have := List.pairwise_mergeSort htrans htotal tasks.reverse
    exact this.imp fun hab => by simpa [le] using hab
  · refine List.pairwise_iff_forall_sublist.2 fun {a b} hab => ?_
    by_contra hlt
    have hba : le b a := by simpa [le] using hlt
    have hsub := List.pair_sublist_mergeSort htrans htotal hba
      (show [b, a].Sublist tasks.reverse by simpa using hab.reverse)
    rw [heq] at hsub
    have hswap : [a, b] = [b, a] :=
      (hnodup.perm_iff_eq_of_sublist hab hsub).1 (List.Perm.swap b a [])
    have hne := hnodup.sublist hab
    simp only [List.cons.injEq] at hswap
    simp [hswap.1] at hne

end Subscriber
end RelayerCore
