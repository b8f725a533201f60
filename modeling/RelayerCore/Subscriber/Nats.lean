import RelayerCore.Subscriber.Subscribe
import RelayerCore.Lib.Cursor

/-!
# The subscriber over NATS (`infrastructure/src/nats/publisher.rs`)

The cursor of the next round is the id of the last message in the stream.  A batch is published
message by message, and the round ends at the first failure; a message whose publish was given up
may still arrive later.  `step` interleaves the rounds of any number of instances with the growth
of the API's listing and with crashes.

Published in the API's order, every message finds all earlier tasks in the stream, so any of them
may become the last one.  The batch is published in the order of the timestamps instead.
-/

namespace RelayerCore
namespace Subscriber
namespace Nats

open Machine

/-- Where an instance stands in its round. -/
inductive Phase
  | idle
  | peeked (lastTaskId : Option TaskItemId)
  | publishing (rest : List TaskItem)

/-- `publish_batch` with these messages still to come. -/
def Phase.publishBatch : List TaskItem → Phase
  | [] => .idle
  | rest => .publishing rest

/-- How one call of `NatsPublisher::publish` ends. -/
inductive PublishResult
  | stored
  | duplicate
  | failed
  deriving DecidableEq

/-- The API's listing, the stream, the messages given up on, and the instances. -/
structure State (ι : Type) where
  api : TaskFeed
  stream : List TaskItem
  late : List TaskItem
  phase : ι → Phase
  failures : List Failure

/-- Nothing listed, nothing published, and no instance at work. -/
def init (ι : Type) : State ι :=
  { api := .empty, stream := [], late := [], phase := fun _ => .idle, failures := [] }

inductive Action (ι : Type)
  | listTask (task : TaskItem)
  | peekLast (i : ι) (ok : Bool)
  | fetch (i : ι) (answer : Except CallError GetTasksResult) (sorted : List TaskItem)
  | publish (i : ι) (result : PublishResult)
  | arrive (k : ℕ)
  | crash (i : ι)

/-- `NatsPublisher::peek_last`: the id of the message under the stream's last sequence number. -/
def peekLast (stream : List TaskItem) : Option TaskItemId :=
  match stream.length with
  | 0 => none
  | lastSequence + 1 => stream[lastSequence]?.map TaskItem.id

section Step

variable {ι : Type} [DecidableEq ι]

def State.goto (s : State ι) (i : ι) (phase : Phase) : State ι :=
  { s with phase := Function.update s.phase i phase }

/-- The round ends with an error. -/
def State.fail (s : State ι) (i : ι) (failure : Failure) : State ι :=
  { s.goto i .idle with failures := failure :: s.failures }

def State.store (s : State ι) (task : TaskItem) : State ι :=
  { s with stream := s.stream ++ [task] }

/-- The message is given up on and may still arrive. -/
def State.giveUp (s : State ι) (task : TaskItem) : State ι :=
  { s with late := task :: s.late }

/-- One step of an instance, of the stream or of the API. -/
def step (chain : String) (limitItems : UInt8) (s : State ι) : Action ι → Option (State ι)
  | .listTask task => (s.api.push? task).map fun api => { s with api := api }
  | .peekLast i ok =>
    match s.phase i with
    | .idle => some (if ok then s.goto i (.peeked (peekLast s.stream)) else s.fail i .peekLast)
    | _ => none
  | .fetch i answer sorted =>
    match s.phase i, answer with
    | .peeked _, .error cause => some (s.fail i (.call cause))
    | .peeked lastTaskId, .ok response =>
      let request := getChainsRequest chain limitItems lastTaskId
      if response.tasks = s.api.getChains request.after request.limit ∧
          SortedByTimestamp response.tasks sorted then
        some (s.goto i (.publishBatch sorted))
      else none
    | _, _ => none
  | .publish i result =>
    match s.phase i with
    | .publishing (task :: rest) =>
      match result with
      | .stored => some ((s.store task).goto i (.publishBatch rest))
      | .duplicate =>
        if task.id ∈ s.stream.map TaskItem.id then some (s.goto i (.publishBatch rest)) else none
      | .failed => some ((s.giveUp task).fail i .publishBatch)
    | _ => none
  | .arrive k => s.late[k]?.map fun task => { s.store task with late := s.late.eraseIdx k }
  | .crash i =>
    match s.phase i with
    | .publishing (task :: _) => some ((s.giveUp task).goto i .idle)
    | _ => some (s.goto i .idle)

/-- Every task at or before the id that `peek_last` returns is in the stream. -/
def NeverSkips (s : State ι) : Prop := ∀ t ∈ s.api.upTo (peekLast s.stream), t ∈ s.stream

/-- The timestamps of an answer increase in the order of the listing. -/
def OrderedStep (_ : State ι) : Action ι → Prop
  | .fetch _ (.ok response) _ => InOrder response.tasks
  | _ => True

instance (s : State ι) (a : Action ι) : Decidable (OrderedStep s a) := by
  unfold OrderedStep
  split <;> infer_instance

end Step

@[simp] theorem peekLast_append (l : List TaskItem) (t : TaskItem) :
    peekLast (l ++ [t]) = some t.id := by
  simp [peekLast]

/-! ### What an instance remembers -/

/-- A remembered cursor is covered by the stream, and a batch continues it. -/
def Phase.Sound (api : TaskFeed) (stored : Set TaskItem) : Phase → Prop
  | .idle => True
  | .peeked lastTaskId => api.Covers stored lastTaskId
  | .publishing rest => api.Chained stored rest

theorem Phase.Sound.mono {api : TaskFeed} {S S' : Set TaskItem} {p : Phase} (h : p.Sound api S)
    (hS : S ⊆ S') : p.Sound api S' := by
  cases p with
  | idle => trivial
  | peeked c => exact Feed.Covers.mono h hS
  | publishing rest => exact Feed.Chained.mono h hS

theorem Phase.Sound.push {api : TaskFeed} {S : Set TaskItem} {p : Phase} (h : p.Sound api S)
    {t : TaskItem} (ht : t.id ∉ api.keys) : p.Sound (api.push t ht) S := by
  cases p with
  | idle => trivial
  | peeked c => exact Feed.Covers.push h ht
  | publishing rest => exact Feed.Chained.push h ht

theorem Phase.sound_publishBatch {api : TaskFeed} {S : Set TaskItem} {rest : List TaskItem}
    (h : api.Chained S rest) : (Phase.publishBatch rest).Sound api S := by
  cases rest with
  | nil => trivial
  | cons t rest => exact h

variable {ι : Type} {s s' : State ι}

/-- The messages in the stream. -/
def State.stored (s : State ι) : Set TaskItem := {t | t ∈ s.stream}

/-- The stream holds listed tasks, and what is under way continues it. -/
structure Pending (s : State ι) : Prop where
  listed : ∀ t ∈ s.stream, t ∈ s.api.entries
  phase : ∀ i, (s.phase i).Sound s.api s.stored
  late : ∀ t ∈ s.late, s.api.Chained s.stored [t]

theorem Pending.goto [DecidableEq ι] (h : Pending s) (i : ι) {p : Phase}
    (hp : p.Sound s.api s.stored) : Pending (s.goto i p) := by
  refine ⟨h.listed, ?_, h.late⟩
  exact (Function.forall_update_iff s.phase fun _ q => q.Sound s.api s.stored).2
    ⟨hp, fun j _ => h.phase j⟩

theorem Pending.fail [DecidableEq ι] (h : Pending s) (i : ι) (f : Failure) :
    Pending (s.fail i f) :=
  ⟨h.listed, (h.goto i (p := .idle) trivial).phase, h.late⟩

theorem subset_store (s : State ι) (t : TaskItem) : s.stored ⊆ (s.store t).stored := by
  intro u hu
  exact List.mem_append_left _ hu

theorem Pending.store (h : Pending s) {t : TaskItem} (ht : t ∈ s.api.entries) :
    Pending (s.store t) := by
  refine ⟨fun u hu => ?_, fun i => (h.phase i).mono (subset_store s t),
    fun u hu => (h.late u hu).mono (subset_store s t)⟩
  rcases List.mem_append.1 hu with hu | hu
  · exact h.listed u hu
  · exact List.mem_singleton.1 hu ▸ ht

theorem Pending.giveUp (h : Pending s) {t : TaskItem} (ht : s.api.Chained s.stored [t]) :
    Pending (s.giveUp t) := by
  refine ⟨h.listed, h.phase, fun u hu => ?_⟩
  rcases List.mem_cons.1 hu with rfl | hu
  · exact ht
  · exact h.late u hu

/-- The message an instance is about to publish finds its past stored. -/
theorem Pending.chained_head (h : Pending s) {i : ι} {t : TaskItem} {rest : List TaskItem}
    (hp : s.phase i = .publishing (t :: rest)) : s.api.Chained s.stored [t] := by
  have hchain : s.api.Chained s.stored (t :: rest) := by
    simpa [hp, Phase.Sound] using h.phase i
  exact ⟨hchain.1, hchain.2.1, trivial⟩

/-! ### The good runs refine the cursor machine -/

/-- The listing, the stream as the set of tasks done, and the cursor of the next round. -/
def State.toCursor (s : State ι) : Cursor.State TaskItem.id :=
  ⟨s.api, s.stored, peekLast s.stream⟩

theorem stored_store (s : State ι) (t : TaskItem) : (s.store t).stored = insert t s.stored := by
  ext u
  simp [State.stored, State.store, or_comm]

/-- Storing a message whose past is stored moves the cursor to it. -/
theorem toCursor_store {t : TaskItem} (ht : s.api.Chained s.stored [t]) :
    Reach Cursor.Step s.toCursor (s.store t).toCursor := by
  have hcov : s.api.Covers (insert t s.stored) (some t.id) :=
    (ht.mono (Set.subset_insert t _)).head_covers (Set.mem_insert t _)
  refine .tail (.single (a := .finish t) rfl) (a := .seek (some t.id)) ⟨hcov, ?_⟩
  simp only [State.toCursor, stored_store]
  simp [State.store]

theorem pending_init : Pending (init ι) :=
  ⟨by simp [init], fun _ => trivial, by simp [init]⟩

variable [DecidableEq ι] {chain : String} {limitItems : UInt8}

/-- A batch in order continues the cursor it was fetched from. -/
theorem chained_of_inOrder {api : TaskFeed} {S : Set TaskItem} {c : Option TaskItemId}
    {limit : Option UInt8} {sorted : List TaskItem} (hc : api.Covers S c)
    (hsort : SortedByTimestamp (api.getChains c limit) sorted)
    (hin : InOrder (api.getChains c limit)) : api.Chained S sorted := by
  obtain ⟨n, hn⟩ := api.getChains_eq_take c limit
  rw [hsort.eq_of_inOrder hin, hn]
  exact Feed.chained_take_after hc n

/-- A publish that succeeds moves the cursor to its message, one that fails ends the round. -/
theorem pending_publish {i : ι} {result : PublishResult} (h : Pending s)
    (hs : step chain limitItems s (.publish i result) = some s') :
    Pending s' ∧ Reach Cursor.Step s.toCursor s'.toCursor := by
  simp only [step] at hs
  split at hs
  · rename_i t rest hp
    have hchain : s.api.Chained s.stored (t :: rest) := by
      simpa [hp, Phase.Sound] using h.phase i
    cases result with
    | stored =>
      cases hs
      have hrest : s.api.Chained (s.store t).stored rest := by
        rw [stored_store]
        exact hchain.2.2
      exact ⟨(h.store hchain.1).goto i (Phase.sound_publishBatch hrest),
        toCursor_store (h.chained_head hp)⟩
    | duplicate =>
      obtain ⟨hdup, hs⟩ := Option.ite_none_right_eq_some.1 hs
      cases hs
      -- the message under the same id is the task itself
      obtain ⟨u, hu, hid⟩ := List.mem_map.1 hdup
      have hut : u = t := Feed.eq_of_key_eq (h.listed u hu) hchain.1 hid
      have ht : t ∈ s.stored := by
        rw [← hut]
        exact hu
      have hrest : s.api.Chained s.stored rest := by
        have := hchain.2.2
        rwa [Set.insert_eq_of_mem ht] at this
      exact ⟨h.goto i (Phase.sound_publishBatch hrest), .refl⟩
    | failed =>
      cases hs
      exact ⟨(h.giveUp (h.chained_head hp)).fail i _, .refl⟩
  · cases hs

/-- One step of a good run keeps what is pending sound, and is a run of the cursor machine. -/
theorem pending_step {a : Action ι} (hsafe : Cursor.Safe s.toCursor) (h : Pending s)
    (hs : when (ofFn (step chain limitItems)) OrderedStep s a s') :
    Pending s' ∧ Reach Cursor.Step s.toCursor s'.toCursor := by
  obtain ⟨hok, hs⟩ := hs
  cases a with
  | listTask task =>
    obtain ⟨api, hapi, rfl⟩ := Option.map_eq_some_iff.1 hs
    obtain ⟨ht, rfl⟩ := Feed.push?_eq_some.1 hapi
    refine ⟨⟨fun u hu => List.mem_append_left _ (h.listed u hu),
      fun i => (h.phase i).push ht, fun u hu => (h.late u hu).push ht⟩, ?_⟩
    exact .single (a := .list task) ⟨ht, rfl⟩
  | peekLast i ok =>
    simp only [ofFn, step] at hs
    split at hs <;> cases hs
    cases ok with
    | false => exact ⟨h.fail i _, .refl⟩
    | true => exact ⟨h.goto i hsafe, .refl⟩
  | fetch i answer sorted =>
    simp only [ofFn, step] at hs
    split at hs
    · cases hs
      exact ⟨h.fail i _, .refl⟩
    · rename_i c response hp
      obtain ⟨⟨hans, hsort⟩, hs⟩ := Option.ite_none_right_eq_some.1 hs
      cases hs
      have hc : s.api.Covers s.stored c := by simpa [hp, Phase.Sound] using h.phase i
      have hin : InOrder response.tasks := hok
      rw [hans] at hsort hin
      exact ⟨h.goto i (Phase.sound_publishBatch (chained_of_inOrder hc hsort hin)), .refl⟩
    · cases hs
  | publish i result => exact pending_publish h hs
  | arrive k =>
    obtain ⟨t, ht, rfl⟩ := Option.map_eq_some_iff.1 hs
    have hchain := h.late t (List.mem_of_getElem? ht)
    have hstore := h.store hchain.1
    exact ⟨⟨hstore.listed, hstore.phase, fun u hu => hstore.late u (List.mem_of_mem_eraseIdx hu)⟩,
      toCursor_store hchain⟩
  | crash i =>
    simp only [ofFn, step] at hs
    split at hs <;> cases hs
    · rename_i t rest hp
      exact ⟨(h.giveUp (h.chained_head hp)).goto i trivial, .refl⟩
    · exact ⟨h.goto i trivial, .refl⟩

theorem refines_cursor : Refines (when (ofFn (step chain limitItems)) OrderedStep)
    Cursor.Step State.toCursor fun s : State ι => Cursor.Safe s.toCursor ∧ Pending s :=
  Cursor.refines_of_step fun _ _ _ => pending_step

theorem neverSkips_of_reach
    (h : Reach (when (ofFn (step chain limitItems)) OrderedStep) (init ι) s) :
    NeverSkips s := by
  have hsafe : Cursor.Safe (init ι).toCursor := Feed.covers_none _ _
  exact (Cursor.safe_of_refines refines_cursor ⟨hsafe, pending_init⟩ hsafe h).done

/-! ### An answer out of order can be published into a skip -/

/-- The messages at the front of a batch can be stored one after the other. -/
theorem exists_reach_publish (chain : String) (limitItems : UInt8) (i : ι) (p q : List TaskItem)
    (hp : s.phase i = .publishBatch (p ++ q)) :
    ∃ s', Reach (ofFn (step chain limitItems)) s s' ∧ s'.api = s.api ∧
      s'.stream = s.stream ++ p := by
  induction p generalizing s with
  | nil => exact ⟨s, .refl, rfl, by simp⟩
  | cons t p ih =>
    have hstep : step chain limitItems s (.publish i .stored) =
        some ((s.store t).goto i (.publishBatch (p ++ q))) := by
      simp only [step, hp, List.cons_append, Phase.publishBatch]
    obtain ⟨s', hr, hapi, hstream⟩ :=
      ih (s := (s.store t).goto i (.publishBatch (p ++ q))) (by simp [State.goto])
    refine ⟨s', (Reach.single hstep).trans hr, hapi, ?_⟩
    rw [hstream]
    simp [State.goto, State.store]

theorem exists_skip_of_not_inOrder {i : ι} {lastTaskId : Option TaskItemId}
    (hp : s.phase i = .peeked lastTaskId)
    (hnew : ∀ t ∈ s.api.getChains lastTaskId (some limitItems), t ∉ s.stream)
    (hout : ¬ InOrder (s.api.getChains lastTaskId (some limitItems))) :
    ∃ s', Reach (ofFn (step chain limitItems)) s s' ∧ ¬ NeverSkips s' := by
  have hsplit : s.api.entries = s.api.upTo lastTaskId ++
      s.api.getChains lastTaskId (some limitItems) ++
        (s.api.after lastTaskId).drop limitItems.toNat := by
    rw [List.append_assoc, TaskFeed.getChains, List.take_append_drop, Feed.upTo_append_after]
  set tasks := s.api.getChains lastTaskId (some limitItems) with htasks
  have hnodup : tasks.Nodup := by
    refine (List.Nodup.of_map TaskItem.id s.api.nodup).sublist ?_
    rw [hsplit]
    exact (List.sublist_append_right _ tasks).trans (List.sublist_append_left _ _)
  obtain ⟨sorted, hsort, hne⟩ := exists_sortedByTimestamp_ne hnodup hout
  obtain ⟨p, x, q, y, rfl, hup, hy, hyp⟩ := Feed.exists_skipped_of_perm hsplit hsort.1 hne
  have hfetch : step chain limitItems s (.fetch i (.ok ⟨tasks⟩) (p ++ x :: q)) =
      some (s.goto i (.publishBatch (p ++ x :: q))) := by
    simp only [step, hp]
    exact if_pos ⟨htasks, hsort⟩
  obtain ⟨s', hr, hapi, hstream⟩ := exists_reach_publish chain limitItems
    (s := s.goto i (.publishBatch (p ++ x :: q))) i (p ++ [x]) q (by simp [State.goto])
  refine ⟨s', (Reach.single hfetch).trans hr, fun hno => ?_⟩
  have hlast : peekLast s'.stream = some x.id := by
    rw [hstream, ← List.append_assoc]
    exact peekLast_append _ x
  have hmem : y ∈ s'.stream := hno y (by rw [hlast, hapi]; exact hup)
  rw [hstream] at hmem
  rcases List.mem_append.1 hmem with hmem | hmem
  · exact hnew y hy hmem
  · exact hyp hmem

/-- **Over NATS the subscriber skips no task as long as timestamps follow the listing.** Runs whose
answers all have strictly increasing timestamps keep every task at or before the cursor in the
stream; an answer of new tasks out of order can be published into a skip. -/
theorem nats_subscriber_skips_none_in_order (chain : String) (limitItems : UInt8) :
    (∀ s : State ι, Reach (when (ofFn (step chain limitItems)) OrderedStep) (init ι) s →
      NeverSkips s) ∧
    ∀ (s : State ι) (i : ι) (lastTaskId : Option TaskItemId), s.phase i = .peeked lastTaskId →
      (∀ t ∈ s.api.getChains lastTaskId (some limitItems), t ∉ s.stream) →
      ¬ InOrder (s.api.getChains lastTaskId (some limitItems)) →
      ∃ s', Reach (ofFn (step chain limitItems)) s s' ∧ ¬ NeverSkips s' :=
  ⟨fun _ => neverSkips_of_reach, fun _ _ _ => exists_skip_of_not_inOrder⟩

/-! ### Two tasks listed against their timestamps -/

/-- A task with a number for an id and a time in seconds. -/
def taskAt (id : BitVec 128) (secs : ℤ) : TaskItem := ⟨⟨id⟩, ⟨secs, 0⟩, .gatewayTx ⟨[]⟩⟩

/-- The first task listed is the later one, so that the second is published alone. -/
theorem nats_subscriber_skips_earlier_task :
    ∃ s, Reach (ofFn (step "solana" 10)) (init Unit) s ∧ ¬ NeverSkips s := by
  obtain ⟨s, hs, hp⟩ := exists_reach_of_exec (step "solana" 10) (init Unit)
    [.listTask (taskAt 1 5), .listTask (taskAt 2 3), .peekLast () true,
      .fetch () (.ok ⟨[taskAt 1 5, taskAt 2 3]⟩) [taskAt 2 3, taskAt 1 5],
      .publish () .stored, .publish () .failed]
    (fun s => (s.api.upTo (peekLast s.stream)).any fun t => !s.stream.contains t) (by decide)
  refine ⟨s, hs, fun hn => ?_⟩
  obtain ⟨t, ht, hno⟩ := List.any_eq_true.1 hp
  simp [hn t ht] at hno

/-- The theorem on a listing in order, and on one out of order. -/
theorem nats_subscriber_skips_none_two_tasks :
    (∃ s : State Unit, s.stream = [taskAt 1 3, taskAt 2 5] ∧ NeverSkips s) ∧
      ∃ s : State Unit, ¬ NeverSkips s := by
  constructor
  · obtain ⟨s, hs, hp⟩ := exists_reach_when_of_exec (step "solana" 10) OrderedStep (init Unit)
      [.listTask (taskAt 1 3), .listTask (taskAt 2 5), .peekLast () true,
        .fetch () (.ok ⟨[taskAt 1 3, taskAt 2 5]⟩) [taskAt 1 3, taskAt 2 5],
        .publish () .stored, .publish () .stored]
      (fun s => s.stream == [taskAt 1 3, taskAt 2 5]) (by decide)
    exact ⟨s, by simpa using hp, (nats_subscriber_skips_none_in_order "solana" 10).1 s hs⟩
  · let s : State Unit := { init Unit with
      api := ⟨[taskAt 1 5, taskAt 2 3], by decide⟩
      phase := fun _ => .peeked none }
    obtain ⟨s', -, hno⟩ := (nats_subscriber_skips_none_in_order "solana" 10).2 s () none rfl
      (by decide) (by decide)
    exact ⟨s', hno⟩

end Nats
end Subscriber
end RelayerCore
