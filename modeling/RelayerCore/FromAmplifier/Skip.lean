import RelayerCore.FromAmplifier.Model
import RelayerCore.Lib.Cursor

/-!
# No task is skipped

Both cursors may move backwards when requests overlap.  What makes this harmless: the tasks on
their way through the channel are chained over the handled ones, each finding its past handled or
ahead of it in the channel, and the rest of every answer is chained over the handled tasks and the
channel together.  So a task that is recorded has its whole past handled, whatever was lost in a
crash or overtaken in between.
-/

namespace RelayerCore
namespace FromAmplifier

open Machine

/-- The task being handled. -/
def Downstream.held : Downstream → List TaskItem
  | .handling task => [task]
  | _ => []

/-- The tasks sent and not handled yet, in the order in which they will be. -/
def State.pipeline (s : State) : List TaskItem := s.downstream.held ++ s.channel

/-- The tasks handled at least once. -/
def State.done (s : State) : Set TaskItem := {t | t ∈ s.handled}

/-- The tasks that are handled or on their way. -/
def State.coming (s : State) : Set TaskItem := s.done ∪ {t | t ∈ s.pipeline}

/-- Every task at or before the processed cursor has been handled. -/
def NeverSkips (s : State) : Prop := ∀ t ∈ s.api.upTo s.latestProcessed, t ∈ s.handled

/-! ### What the parties remember -/

def Poll.Sound (api : TaskFeed) (done : Set TaskItem) : Poll → Prop
  | .read latestProcessedTask => api.Covers done latestProcessedTask
  | _ => True

/-- A request is for the tasks after a covered cursor, and its answer continues what is coming. -/
def Request.Sound (api : TaskFeed) (done coming : Set TaskItem) : Request → Prop
  | .waiting after => api.Covers done after
  | .sending rest _ => api.Chained coming rest
  | .setting _ => True

/-- A task about to be recorded is a covered cursor. -/
def Downstream.Sound (api : TaskFeed) (done : Set TaskItem) : Downstream → Prop
  | .recording task | .unrecorded task => api.Covers done (some task.id)
  | _ => True

section Sound

variable {api : TaskFeed} {S S' C C' : Set TaskItem}

theorem Poll.Sound.mono {p : Poll} (h : p.Sound api S) (hS : S ⊆ S') : p.Sound api S' := by
  cases p with
  | read c => exact Feed.Covers.mono h hS
  | idle => trivial
  | accepting => trivial

theorem Request.Sound.mono {r : Request} (h : r.Sound api S C) (hS : S ⊆ S') (hC : C ⊆ C') :
    r.Sound api S' C' := by
  cases r with
  | waiting c => exact Feed.Covers.mono h hS
  | sending rest last => exact Feed.Chained.mono h hC
  | setting last => trivial

variable {t : TaskItem} (ht : t.id ∉ api.keys)

theorem Poll.Sound.push {p : Poll} (h : p.Sound api S) : p.Sound (api.push t ht) S := by
  cases p with
  | read c => exact Feed.Covers.push h ht
  | idle => trivial
  | accepting => trivial

theorem Request.Sound.push {r : Request} (h : r.Sound api S C) :
    r.Sound (api.push t ht) S C := by
  cases r with
  | waiting c => exact Feed.Covers.push h ht
  | sending rest last => exact Feed.Chained.push h ht
  | setting last => trivial

theorem Downstream.Sound.push {d : Downstream} (h : d.Sound api S) :
    d.Sound (api.push t ht) S := by
  cases d with
  | recording u => exact Feed.Covers.push h ht
  | unrecorded u => exact Feed.Covers.push h ht
  | idle => trivial
  | handling u => trivial

end Sound

/-- What is under way continues what has been handled. -/
structure Pending (s : State) : Prop where
  poll : s.poll.Sound s.api s.done
  requests : ∀ r ∈ s.requests, r.Sound s.api s.done s.coming
  downstream : s.downstream.Sound s.api s.done
  pipeline : s.api.Chained s.done s.pipeline

variable {s s' : State} {getChainsLimit : UInt8}

theorem pending_boot (api : TaskFeed) (processed queried : Option TaskItemId) :
    Pending (boot api processed queried) :=
  ⟨trivial, by simp [boot], trivial, trivial⟩

theorem Pending.finish (h : Pending s) (i : ℕ) : Pending (s.finish i) :=
  { h with requests := fun r hr => h.requests r (List.mem_of_mem_eraseIdx hr) }

theorem Pending.setRequest (h : Pending s) (i : ℕ) {r : Request}
    (hr : r.Sound s.api s.done s.coming) : Pending { s with requests := s.requests.set i r } := by
  refine { h with requests := fun q hq => ?_ }
  rcases List.mem_or_eq_of_mem_set hq with hq | rfl
  · exact h.requests q hq
  · exact hr

/-- A task whose past is coming joins the end of the channel. -/
theorem Pending.sendTask (h : Pending s) {t : TaskItem} (ht : s.api.Chained s.coming [t]) :
    Pending { s with channel := s.channel ++ [t], pushed := s.pushed ++ [t] } := by
  have hpipe : State.pipeline { s with channel := s.channel ++ [t], pushed := s.pushed ++ [t] } =
      s.pipeline ++ [t] := by simp [State.pipeline]
  refine ⟨h.poll, fun r hr => (h.requests r hr).mono le_rfl ?_, h.downstream, ?_⟩
  · rintro u (hu | hu)
    · exact Or.inl hu
    · refine Or.inr ?_
      rw [hpipe]
      exact List.mem_append_left _ hu
  · rw [hpipe]
    exact Feed.chained_append.2 ⟨h.pipeline, ht⟩

/-- The first task of the channel becomes the held one, and the pipeline stays as it is. -/
theorem Pending.takeTask (h : Pending s) {t : TaskItem} {rest : List TaskItem}
    (hheld : s.downstream.held = []) (hch : s.channel = t :: rest) :
    Pending (s.takeTask t rest) := by
  have hpipe : (s.takeTask t rest).pipeline = s.pipeline := by
    rw [State.pipeline, State.pipeline, hheld, hch]
    rfl
  refine ⟨h.poll, fun r hr => (h.requests r hr).mono le_rfl ?_, trivial, ?_⟩
  · rintro u (hu | hu)
    · exact Or.inl hu
    · exact Or.inr (by rw [hpipe]; exact hu)
  · rw [hpipe]
    exact h.pipeline

/-! ### Every run refines the cursor machine -/

/-- The listing, the handled tasks, and the processed cursor. -/
def State.toCursor (s : State) : Cursor.State TaskItem.id := ⟨s.api, s.done, s.latestProcessed⟩

/-- The held task is handled, and everything before it was. -/
theorem Pending.handleTask (h : Pending s) {t : TaskItem} (hd : s.downstream = .handling t) :
    Pending { s with downstream := .recording t, handled := t :: s.handled } ∧
      Reach Cursor.Step s.toCursor
        { s with downstream := .recording t, handled := t :: s.handled }.toCursor := by
  have hpipe : s.pipeline = t :: s.channel := by simp [State.pipeline, hd, Downstream.held]
  have hchain : s.api.Chained s.done (t :: s.channel) := by
    rw [← hpipe]
    exact h.pipeline
  have hdone : State.done { s with downstream := .recording t, handled := t :: s.handled } =
      insert t s.done := by
    ext u
    simp [State.done]
  have hsub := Set.subset_insert t s.done
  refine ⟨⟨?_, fun r hr => ?_, ?_, ?_⟩, ?_⟩
  · rw [hdone]
    exact h.poll.mono hsub
  · -- the held task moves from the pipeline to the handled ones
    refine (h.requests r hr).mono (by rw [hdone]; exact hsub) ?_
    rintro u (hu | hu)
    · exact Or.inl (by rw [hdone]; exact hsub hu)
    · rw [hpipe] at hu
      rcases List.mem_cons.1 hu with rfl | hu
      · exact Or.inl (by rw [hdone]; exact Set.mem_insert u _)
      · exact Or.inr (by simpa [State.pipeline, Downstream.held] using hu)
  · rw [hdone]
    exact (hchain.mono hsub).head_covers (Set.mem_insert t _)
  · rw [hdone]
    exact hchain.2.2
  · refine .single (a := .finish t) ?_
    simp only [Cursor.Step, State.toCursor, hdone]

theorem Pending.recordTask (h : Pending s) {t : TaskItem} {result : SetResult}
    (ht : s.api.Covers s.done (some t.id)) (hheld : s.downstream.held = []) :
    Pending (s.recordTask t result) ∧
      Reach Cursor.Step s.toCursor (s.recordTask t result).toCursor := by
  have hheld' : (s.recordTask t result).downstream.held = [] := by
    unfold State.recordTask
    by_cases hr : result = .ok <;> simp [hr, Downstream.held]
  have hpipe : (s.recordTask t result).pipeline = s.pipeline := by
    rw [State.pipeline, State.pipeline, hheld, hheld']
    rfl
  refine ⟨⟨h.poll, fun r hr => (h.requests r hr).mono le_rfl ?_, ?_, ?_⟩, ?_⟩
  · rintro u (hu | hu)
    · exact Or.inl hu
    · exact Or.inr (by rw [hpipe]; exact hu)
  · by_cases hr : result = .ok
    · simp [State.recordTask, hr, Downstream.Sound]
    · have hd : (s.recordTask t result).downstream = .unrecorded t := if_neg hr
      rw [hd]
      exact ht
  · rw [hpipe]
    exact h.pipeline
  · by_cases hr : result.stores
    · refine .single (a := .seek (some t.id)) ⟨ht, ?_⟩
      simp [State.toCursor, State.recordTask, State.setLatestProcessed, State.done, hr]
    · have hsame : (s.recordTask t result).toCursor = s.toCursor := by
        simp [State.toCursor, State.recordTask, State.setLatestProcessed, State.done, hr]
      rw [hsame]
      exact .refl

theorem pending_internal {a : Action} (hsafe : Cursor.Safe s.toCursor) (h : Pending s)
    (hs : internal s a = some s') : Pending s' ∧ s'.toCursor = s.toCursor := by
  obtain ⟨-, ⟨p, hp, rfl⟩ | ⟨-, hp, rfl⟩⟩ := internal_cases hs
  · have hsound : p.Sound s.api s.done := by
      rcases hp with rfl | rfl | rfl | rfl
      · exact h.poll
      · trivial
      · trivial
      · exact hsafe
    exact ⟨{ h with poll := hsound }, rfl⟩
  · have hc : s.api.Covers s.done s.latestQueried := by simpa [hp, Poll.Sound] using h.poll
    refine ⟨{ h with poll := trivial, requests := fun r hr => ?_ }, rfl⟩
    rcases List.mem_append.1 hr with hr | hr
    · exact h.requests r hr
    · rw [List.mem_singleton.1 hr]
      exact hc

theorem pending_processTaskRequest {a : Action} (h : Pending s)
    (hs : processTaskRequest getChainsLimit s a = some s') :
    Pending s' ∧ s'.toCursor = s.toCursor := by
  rcases processTaskRequest_cases hs with ⟨i, c, answer, -, -, -, rfl⟩ |
    ⟨i, c, tasks, last, -, hi, hans, -, rfl⟩ | ⟨i, t, rest, last, -, hi, rfl⟩ |
    ⟨i, last, result, -, -, rfl⟩
  · exact ⟨h.finish i, rfl⟩
  · have hc : s.api.Covers s.done c := h.requests _ (List.mem_of_getElem? hi)
    refine ⟨h.setRequest i ?_, rfl⟩
    obtain ⟨n, hn⟩ := s.api.getChains_eq_take c (some getChainsLimit)
    have hchain := Feed.chained_take_after hc n
    rw [← hn, ← hans] at hchain
    exact hchain.mono Set.subset_union_left
  · have hchain : s.api.Chained s.coming (t :: rest) := h.requests _ (List.mem_of_getElem? hi)
    have hsend := h.sendTask ⟨hchain.1, hchain.2.1, trivial⟩
    refine ⟨hsend.setRequest i ?_, rfl⟩
    split_ifs
    · trivial
    · refine hchain.2.2.mono (Set.insert_subset (Or.inr ?_) ?_)
      · simp [State.pipeline]
      · rintro u (hu | hu)
        · exact Or.inl hu
        · exact Or.inr (by simpa [State.pipeline, or_assoc] using Or.inl hu)
  · have hset : Pending (s.setLatestQueried last result) :=
      ⟨h.poll, h.requests, h.downstream, h.pipeline⟩
    exact ⟨hset.finish i, rfl⟩

theorem pending_consume {a : Action} (h : Pending s) (hs : consume s a = some s') :
    Pending s' ∧ Reach Cursor.Step s.toCursor s'.toCursor := by
  cases a <;> simp only [consume] at hs <;> try contradiction
  case take =>
    split at hs <;> cases hs
    · rename_i t rest hd hch
      exact ⟨h.takeTask (by simp [hd, Downstream.held]) hch, .refl⟩
    · rename_i u t rest hd hch
      exact ⟨h.takeTask (by simp [hd, Downstream.held]) hch, .refl⟩
  case handle =>
    split at hs <;> cases hs
    rename_i t hd
    exact h.handleTask hd
  case record result =>
    split at hs <;> cases hs <;> rename_i t hd <;>
      exact h.recordTask (by simpa [hd, Downstream.Sound] using h.downstream)
        (by simp [hd, Downstream.held])

/-- One step keeps what is under way sound, and is a run of the cursor machine. -/
theorem pending_step {a : Action} (hsafe : Cursor.Safe s.toCursor) (h : Pending s)
    (hs : step getChainsLimit s a = some s') :
    Pending s' ∧ Reach Cursor.Step s.toCursor s'.toCursor := by
  rcases step_cases hs with ⟨t, ht, rfl⟩ | ⟨result, -, -, rfl⟩ | ⟨-, rfl⟩ | hs | hs | hs
  · -- a new task is listed after every cursor there is
    refine ⟨⟨h.poll.push ht, fun r hr => (h.requests r hr).push ht, h.downstream.push ht,
      h.pipeline.push ht⟩, ?_⟩
    exact .single (a := .list t) ⟨ht, rfl⟩
  · unfold startProcess
    split
    · exact ⟨⟨h.poll, h.requests, h.downstream, h.pipeline⟩, .refl⟩
    · exact ⟨⟨h.poll, h.requests, h.downstream, h.pipeline⟩, .refl⟩
  · -- a crash only drops what was under way
    exact ⟨⟨trivial, by simp [State.crash], trivial, trivial⟩, .refl⟩
  · obtain ⟨h', heq⟩ := pending_internal hsafe h hs
    exact ⟨h', heq ▸ .refl⟩
  · obtain ⟨h', heq⟩ := pending_processTaskRequest h hs
    exact ⟨h', heq ▸ .refl⟩
  · exact pending_consume h hs

theorem refines_cursor : Refines (ofFn (step getChainsLimit)) Cursor.Step State.toCursor
    fun s => Cursor.Safe s.toCursor ∧ Pending s :=
  Cursor.refines_of_step fun _ _ _ => pending_step

/-- **The poller skips no task.** In every reachable state, crashes and overlapping requests
included, every task at or before the processed cursor has been handled. -/
theorem poller_skips_none (h : Reach (ofFn (step getChainsLimit)) init s) : NeverSkips s := by
  have hsafe : Cursor.Safe init.toCursor := Feed.covers_none _ _
  exact (Cursor.safe_of_refines refines_cursor ⟨hsafe, pending_boot .empty none none⟩ hsafe h).done

/-- The theorem on two overlapping requests and a crash. -/
theorem poller_skips_none_overlapping :
    ∃ s, s.latestProcessed = some ⟨1⟩ ∧ NeverSkips s := by
  let t₁ : TaskItem := ⟨⟨1⟩, ⟨5, 0⟩, .gatewayTx ⟨[]⟩⟩
  let t₂ : TaskItem := ⟨⟨2⟩, ⟨3, 0⟩, .gatewayTx ⟨[]⟩⟩
  obtain ⟨s, hs, hp⟩ := exists_reach_of_exec (step 4) init
    [.start .ok, .listTask t₁, .tick, .readProcessed, .readQueried true, .tick, .readProcessed,
      .readQueried true, .respond 0 (.ok ⟨[t₁]⟩), .listTask t₂, .respond 1 (.ok ⟨[t₁, t₂]⟩),
      .send 1, .send 0, .send 1, .setQueried 1 .ok, .setQueried 0 .ok, .take, .handle, .record .ok,
      .take, .handle, .record .ok, .crash, .start .ok]
    (fun s => s.latestProcessed == some ⟨1⟩) (by decide)
  exact ⟨s, by simpa using hp, poller_skips_none hs⟩

end FromAmplifier
end RelayerCore
