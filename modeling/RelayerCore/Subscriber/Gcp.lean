import RelayerCore.Subscriber.Subscribe
import RelayerCore.Lib.Cursor

/-!
# The subscriber over Pub/Sub and Redis (`infrastructure/src/gcp/publisher.rs`)

The cursor of the next round is a task id kept in Redis.  A batch is handed to the publisher as a
whole, which sends its messages in any order; the handles are awaited one after the other, and only
when all of them have resolved to `Ok` is the id of the batch's last message written to Redis.  Any
number of instances share the topic and the Redis key.  A message or a write that was given up on
may still take effect later.
-/

namespace RelayerCore
namespace Subscriber
namespace Gcp

open Machine

/-- Where an instance stands in its round. -/
inductive Phase
  | idle
  | peeked (lastTaskId : Option TaskItemId)
  | publishing (batch : List TaskItem)
  /-- awaiting the handles of the messages still `waiting` -/
  | confirming (lastMsgId : TaskItemId) (waiting : List TaskItem)
  /-- about to write the id to Redis -/
  | saving (lastMsgId : TaskItemId)

/-- The round goes on with the sorted tasks, or is over if there are none. -/
def Phase.publishBatch : List TaskItem → Phase
  | [] => .idle
  | tasks => .publishing tasks

/-- The handles still to await; after the last one the id is saved. -/
def Phase.confirm (lastMsgId : TaskItemId) : List TaskItem → Phase
  | [] => .saving lastMsgId
  | waiting => .confirming lastMsgId waiting

/-- The API's listing, the messages handed to the publisher, those the topic has accepted, the
Redis value, the Redis writes that failed but may still be applied, and the instances. -/
structure State (ι : Type) where
  api : TaskFeed
  sent : List TaskItem
  topic : List TaskItem
  lastMessageId : Option TaskItemId
  lateUpserts : List TaskItemId
  phase : ι → Phase
  failures : List Failure

def init (ι : Type) : State ι :=
  { api := .empty, sent := [], topic := [], lastMessageId := none, lateUpserts := []
    phase := fun _ => .idle, failures := [] }

inductive Action (ι : Type)
  | listTask (task : TaskItem)
  | peekLast (i : ι) (ok : Bool)
  | fetch (i : ι) (answer : Except CallError GetTasksResult) (sorted : List TaskItem)
  | publishBatch (i : ι) (encoded : Bool)
  | accept (task : TaskItem)
  | handle (i : ι) (ok : Bool)
  | upsert (i : ι) (ok : Bool)
  | lateUpsert (k : ℕ)
  | crash (i : ι)

section Step

variable {ι : Type} [DecidableEq ι]

def State.goto (s : State ι) (i : ι) (phase : Phase) : State ι :=
  { s with phase := Function.update s.phase i phase }

/-- The round ends with an error. -/
def State.fail (s : State ι) (i : ι) (failure : Failure) : State ι :=
  { s.goto i .idle with failures := failure :: s.failures }

/-- The write is given up on and may still be applied. -/
def State.giveUp (s : State ι) (lastMsgId : TaskItemId) : State ι :=
  { s with lateUpserts := lastMsgId :: s.lateUpserts }

/-- One step of an instance, of the publisher's workers, of Redis or of the API. -/
def step (chain : String) (limitItems : UInt8) (s : State ι) : Action ι → Option (State ι)
  | .listTask task => (s.api.push? task).map fun api => { s with api := api }
  | .peekLast i ok =>
    match s.phase i with
    | .idle => some (if ok then s.goto i (.peeked s.lastMessageId) else s.fail i .peekLast)
    | _ => none
  | .fetch i answer sorted =>
    match s.phase i, answer with
    | .peeked _, .error cause => some (s.fail i (.call cause))
    | .peeked lastTaskId, .ok response =>
      let request := getChainsRequest chain limitItems lastTaskId
      if response.tasks = s.api.getChains request.after request.limit ∧
          SortedByTimestamp response.tasks sorted then
        some (s.goto i (.publishBatch sorted))
      else none
    | _, _ => none
  | .publishBatch i encoded =>
    match s.phase i with
    | .publishing batch =>
      match batch.getLast? with
      | none => some (s.fail i .publishBatch)
      | some lastMsg =>
        if encoded then
          some ({ s with sent := s.sent ++ batch }.goto i (.confirm lastMsg.id batch))
        else some (s.fail i .publishBatch)
    | _ => none
  | .accept task => if task ∈ s.sent then some { s with topic := task :: s.topic } else none
  | .handle i ok =>
    match s.phase i with
    | .confirming lastMsgId (task :: waiting) =>
      if ok then
        if task ∈ s.topic then some (s.goto i (.confirm lastMsgId waiting)) else none
      else some (s.fail i .publishBatch)
    | _ => none
  | .upsert i ok =>
    match s.phase i with
    | .saving lastMsgId =>
      if ok then some ({ s with lastMessageId := some lastMsgId }.goto i .idle)
      else some ((s.giveUp lastMsgId).fail i .publishBatch)
    | _ => none
  | .lateUpsert k =>
    s.lateUpserts[k]?.map fun lastMsgId =>
      { s with lastMessageId := some lastMsgId, lateUpserts := s.lateUpserts.eraseIdx k }
  | .crash i =>
    match s.phase i with
    | .saving lastMsgId => some ((s.giveUp lastMsgId).goto i .idle)
    | _ => some (s.goto i .idle)

/-- Every task at or before the id stored in Redis has been accepted by the topic. -/
def NeverSkips (s : State ι) : Prop := ∀ t ∈ s.api.upTo s.lastMessageId, t ∈ s.topic

end Step

/-! ### What a step does -/

section Acts

variable {ι : Type} [DecidableEq ι]

/-- The steps, by what they find and what they leave. -/
inductive Acts (limitItems : UInt8) (s : State ι) : Action ι → State ι → Prop
  | listTask (task : TaskItem) (hnew : task.id ∉ s.api.keys) :
      Acts limitItems s (.listTask task) { s with api := s.api.push task hnew }
  | peekLast (i : ι) (hp : s.phase i = .idle) :
      Acts limitItems s (.peekLast i true) (s.goto i (.peeked s.lastMessageId))
  | peekFails (i : ι) (hp : s.phase i = .idle) :
      Acts limitItems s (.peekLast i false) (s.fail i .peekLast)
  | fetch (i : ι) (lastTaskId : Option TaskItemId) (response : GetTasksResult)
      (sorted : List TaskItem) (hp : s.phase i = .peeked lastTaskId)
      (htasks : response.tasks = s.api.getChains lastTaskId (some limitItems))
      (hsort : SortedByTimestamp response.tasks sorted) :
      Acts limitItems s (.fetch i (.ok response) sorted) (s.goto i (.publishBatch sorted))
  | fetchFails (i : ι) (lastTaskId : Option TaskItemId) (cause : CallError)
      (sorted : List TaskItem) (hp : s.phase i = .peeked lastTaskId) :
      Acts limitItems s (.fetch i (.error cause) sorted) (s.fail i (.call cause))
  | publishBatch (i : ι) (batch : List TaskItem) (lastMsg : TaskItem)
      (hp : s.phase i = .publishing batch) (hlast : batch.getLast? = some lastMsg) :
      Acts limitItems s (.publishBatch i true)
        ({ s with sent := s.sent ++ batch }.goto i (.confirm lastMsg.id batch))
  | batchFails (i : ι) (encoded : Bool) (batch : List TaskItem)
      (hp : s.phase i = .publishing batch) (hfail : encoded = true → batch = []) :
      Acts limitItems s (.publishBatch i encoded) (s.fail i .publishBatch)
  | accept (task : TaskItem) (hsent : task ∈ s.sent) :
      Acts limitItems s (.accept task) { s with topic := task :: s.topic }
  | handle (i : ι) (lastMsgId : TaskItemId) (task : TaskItem) (waiting : List TaskItem)
      (hp : s.phase i = .confirming lastMsgId (task :: waiting)) (htopic : task ∈ s.topic) :
      Acts limitItems s (.handle i true) (s.goto i (.confirm lastMsgId waiting))
  | handleFails (i : ι) (lastMsgId : TaskItemId) (task : TaskItem) (waiting : List TaskItem)
      (hp : s.phase i = .confirming lastMsgId (task :: waiting)) :
      Acts limitItems s (.handle i false) (s.fail i .publishBatch)
  | upsert (i : ι) (lastMsgId : TaskItemId) (hp : s.phase i = .saving lastMsgId) :
      Acts limitItems s (.upsert i true) ({ s with lastMessageId := some lastMsgId }.goto i .idle)
  | upsertFails (i : ι) (lastMsgId : TaskItemId) (hp : s.phase i = .saving lastMsgId) :
      Acts limitItems s (.upsert i false) ((s.giveUp lastMsgId).fail i .publishBatch)
  | lateUpsert (k : ℕ) (lastMsgId : TaskItemId) (hk : s.lateUpserts[k]? = some lastMsgId) :
      Acts limitItems s (.lateUpsert k)
        { s with lastMessageId := some lastMsgId, lateUpserts := s.lateUpserts.eraseIdx k }
  | crash (i : ι) (hp : ∀ lastMsgId, s.phase i ≠ .saving lastMsgId) :
      Acts limitItems s (.crash i) (s.goto i .idle)
  /-- the write that was under way may still be applied -/
  | crashSaving (i : ι) (lastMsgId : TaskItemId) (hp : s.phase i = .saving lastMsgId) :
      Acts limitItems s (.crash i) ((s.giveUp lastMsgId).goto i .idle)

variable {chain : String} {limitItems : UInt8} {s s' : State ι}

theorem acts_of_fetch {i : ι} {answer : Except CallError GetTasksResult} {sorted : List TaskItem}
    (hs : step chain limitItems s (.fetch i answer sorted) = some s') :
    Acts limitItems s (.fetch i answer sorted) s' := by
  simp only [step] at hs
  split at hs
  · rename_i lastTaskId cause hp
    cases hs
    exact .fetchFails i lastTaskId cause sorted hp
  · rename_i lastTaskId response hp
    obtain ⟨⟨htasks, hsort⟩, hs⟩ := Option.ite_none_right_eq_some.1 hs
    cases hs
    exact .fetch i lastTaskId response sorted hp htasks hsort
  · cases hs

theorem acts_of_publishBatch {i : ι} {encoded : Bool}
    (hs : step chain limitItems s (.publishBatch i encoded) = some s') :
    Acts limitItems s (.publishBatch i encoded) s' := by
  simp only [step] at hs
  split at hs
  · rename_i batch hp
    split at hs
    · rename_i hlast
      cases hs
      exact .batchFails i encoded batch hp fun _ => List.getLast?_eq_none_iff.1 hlast
    · rename_i lastMsg hlast
      cases encoded with
      | true =>
        cases hs
        exact .publishBatch i batch lastMsg hp hlast
      | false =>
        cases hs
        exact .batchFails i false batch hp (by simp)
  · cases hs

theorem acts_of_step {a : Action ι} (hs : step chain limitItems s a = some s') :
    Acts limitItems s a s' := by
  cases a with
  | listTask task =>
    obtain ⟨api, hapi, rfl⟩ := Option.map_eq_some_iff.1 hs
    obtain ⟨hnew, rfl⟩ := Feed.push?_eq_some.1 hapi
    exact .listTask task hnew
  | peekLast i ok =>
    simp only [step] at hs
    split at hs <;> cases hs
    rename_i hp
    cases ok with
    | true => exact .peekLast i hp
    | false => exact .peekFails i hp
  | fetch i answer sorted => exact acts_of_fetch hs
  | publishBatch i encoded => exact acts_of_publishBatch hs
  | accept task =>
    obtain ⟨hsent, hs⟩ := Option.ite_none_right_eq_some.1 hs
    cases hs
    exact .accept task hsent
  | handle i ok =>
    simp only [step] at hs
    split at hs
    · rename_i lastMsgId task waiting hp
      split_ifs at hs with hok htopic <;> cases hs
      · rw [hok]
        exact .handle i lastMsgId task waiting hp htopic
      · rw [Bool.eq_false_of_not_eq_true hok]
        exact .handleFails i lastMsgId task waiting hp
    · cases hs
  | upsert i ok =>
    simp only [step] at hs
    split at hs
    · rename_i lastMsgId hp
      cases ok <;> cases hs
      · exact .upsertFails i lastMsgId hp
      · exact .upsert i lastMsgId hp
    · cases hs
  | lateUpsert k =>
    obtain ⟨lastMsgId, hk, rfl⟩ := Option.map_eq_some_iff.1 hs
    exact .lateUpsert k lastMsgId hk
  | crash i =>
    simp only [step] at hs
    split at hs <;> cases hs
    · rename_i lastMsgId hp
      exact .crashSaving i lastMsgId hp
    · rename_i hp
      exact .crash i hp

end Acts

/-! ### What an instance remembers -/

/-- The tasks of a batch are, in the API's order, a continuation of what is accepted. -/
def Continues (api : TaskFeed) (accepted : Set TaskItem) (batch : List TaskItem) : Prop :=
  ∃ tasks, batch.Perm tasks ∧ api.Chained accepted tasks

/-- A remembered cursor is covered by the accepted tasks, or will be once the handles that are
still awaited have resolved. -/
def Phase.Sound (api : TaskFeed) (accepted : Set TaskItem) : Phase → Prop
  | .idle => True
  | .peeked lastTaskId => api.Covers accepted lastTaskId
  | .publishing batch => Continues api accepted batch
  | .confirming lastMsgId waiting => ∃ batch, Continues api accepted batch ∧
      (∀ t ∈ batch, t ∈ accepted ∨ t ∈ waiting) ∧ ∃ t ∈ batch, t.id = lastMsgId
  | .saving lastMsgId => api.Covers accepted (some lastMsgId)

theorem Continues.mono {api : TaskFeed} {S S' : Set TaskItem} {batch : List TaskItem}
    (h : Continues api S batch) (hS : S ⊆ S') : Continues api S' batch := by
  obtain ⟨tasks, hperm, hchain⟩ := h
  exact ⟨tasks, hperm, hchain.mono hS⟩

theorem Continues.push {api : TaskFeed} {S : Set TaskItem} {batch : List TaskItem}
    (h : Continues api S batch) {t : TaskItem} (ht : t.id ∉ api.keys) :
    Continues (api.push t ht) S batch := by
  obtain ⟨tasks, hperm, hchain⟩ := h
  exact ⟨tasks, hperm, hchain.push ht⟩

/-- Any task of a batch that is accepted as a whole is a covered cursor. -/
theorem Continues.covers {api : TaskFeed} {S : Set TaskItem} {batch : List TaskItem}
    (h : Continues api S batch) (hS : ∀ t ∈ batch, t ∈ S) :
    ∀ t ∈ batch, api.Covers S (some t.id) := by
  obtain ⟨tasks, hperm, hchain⟩ := h
  intro t ht
  exact hchain.covers (fun u hu => hS u (hperm.mem_iff.2 hu)) t (hperm.mem_iff.1 ht)

theorem Continues.subset {api : TaskFeed} {S : Set TaskItem} {batch : List TaskItem}
    (h : Continues api S batch) : batch ⊆ api.entries := by
  obtain ⟨tasks, hperm, hchain⟩ := h
  exact List.Subset.trans hperm.subset hchain.subset

theorem Phase.Sound.mono {api : TaskFeed} {S S' : Set TaskItem} {p : Phase} (h : p.Sound api S)
    (hS : S ⊆ S') : p.Sound api S' := by
  cases p with
  | idle => trivial
  | peeked c => exact Feed.Covers.mono h hS
  | publishing batch => exact Continues.mono h hS
  | confirming id waiting =>
    obtain ⟨batch, hcont, hwait, hlast⟩ := h
    exact ⟨batch, hcont.mono hS, fun t ht => (hwait t ht).imp_left (@hS t), hlast⟩
  | saving id => exact Feed.Covers.mono h hS

theorem Phase.Sound.push {api : TaskFeed} {S : Set TaskItem} {p : Phase} (h : p.Sound api S)
    {t : TaskItem} (ht : t.id ∉ api.keys) : p.Sound (api.push t ht) S := by
  cases p with
  | idle => trivial
  | peeked c => exact Feed.Covers.push h ht
  | publishing batch => exact Continues.push h ht
  | confirming id waiting =>
    obtain ⟨batch, hcont, hrest⟩ := h
    exact ⟨batch, hcont.push ht, hrest⟩
  | saving id => exact Feed.Covers.push h ht

theorem Phase.sound_publishBatch {api : TaskFeed} {S : Set TaskItem} {batch : List TaskItem}
    (h : Continues api S batch) : (Phase.publishBatch batch).Sound api S := by
  cases batch with
  | nil => trivial
  | cons t batch => exact h

/-- When the last handle has resolved, the id to be saved is covered. -/
theorem Phase.sound_confirm {api : TaskFeed} {S : Set TaskItem} {id : TaskItemId}
    {batch waiting : List TaskItem} (h : Continues api S batch)
    (hwait : ∀ t ∈ batch, t ∈ S ∨ t ∈ waiting) (hlast : ∃ t ∈ batch, t.id = id) :
    (Phase.confirm id waiting).Sound api S := by
  cases waiting with
  | nil =>
    obtain ⟨t, ht, rfl⟩ := hlast
    have hall : ∀ u ∈ batch, u ∈ S := fun u hu => (hwait u hu).resolve_right (by simp)
    exact h.covers hall t ht
  | cons t waiting => exact ⟨batch, h, hwait, hlast⟩

variable {ι : Type} {s s' : State ι}

/-- The messages the topic has accepted. -/
def State.accepted (s : State ι) : Set TaskItem := {t | t ∈ s.topic}

/-- Whatever may be written to Redis later is a covered cursor by then. -/
structure Pending (s : State ι) : Prop where
  phase : ∀ i, (s.phase i).Sound s.api s.accepted
  late : ∀ id ∈ s.lateUpserts, s.api.Covers s.accepted (some id)

theorem pending_init : Pending (init ι) := ⟨fun _ => trivial, by simp [init]⟩

theorem Pending.goto [DecidableEq ι] (h : Pending s) (i : ι) {p : Phase}
    (hp : p.Sound s.api s.accepted) : Pending (s.goto i p) := by
  refine ⟨?_, h.late⟩
  exact (Function.forall_update_iff s.phase fun _ q => q.Sound s.api s.accepted).2
    ⟨hp, fun j _ => h.phase j⟩

theorem Pending.fail [DecidableEq ι] (h : Pending s) (i : ι) (f : Failure) :
    Pending (s.fail i f) :=
  ⟨(h.goto i (p := .idle) trivial).phase, h.late⟩

theorem Pending.giveUp (h : Pending s) {id : TaskItemId}
    (hid : s.api.Covers s.accepted (some id)) : Pending (s.giveUp id) := by
  refine ⟨h.phase, fun u hu => ?_⟩
  rcases List.mem_cons.1 hu with rfl | hu
  · exact hid
  · exact h.late u hu

/-- The id about to be written to Redis is a covered cursor. -/
theorem Pending.covers_saving (h : Pending s) {i : ι} {lastMsgId : TaskItemId}
    (hp : s.phase i = .saving lastMsgId) : s.api.Covers s.accepted (some lastMsgId) := by
  simpa [hp, Phase.Sound] using h.phase i

/-! ### Every run refines the cursor machine -/

/-- The listing, the accepted messages as the set of tasks done, and the cursor in Redis. -/
def State.toCursor (s : State ι) : Cursor.State TaskItem.id :=
  ⟨s.api, s.accepted, s.lastMessageId⟩

theorem toCursor_accept (s : State ι) (t : TaskItem) :
    Reach Cursor.Step s.toCursor { s with topic := t :: s.topic }.toCursor := by
  refine .single (a := .finish t) ?_
  simp only [Cursor.Step, State.toCursor, Cursor.State.mk.injEq, true_and, and_true]
  ext u
  simp [State.accepted]

variable [DecidableEq ι] {chain : String} {limitItems : UInt8}

/-- A sorted answer continues the cursor it was requested for. -/
theorem continues_of_sorted {api : TaskFeed} {S : Set TaskItem} {c : Option TaskItemId}
    {limit : Option UInt8} {sorted : List TaskItem} (hc : api.Covers S c)
    (hsort : SortedByTimestamp (api.getChains c limit) sorted) : Continues api S sorted := by
  obtain ⟨n, hn⟩ := api.getChains_eq_take c limit
  exact ⟨_, hsort.1, hn ▸ Feed.chained_take_after hc n⟩

/-- The whole batch is handed to the publisher. -/
theorem Pending.publishBatch (h : Pending s) {i : ι} {batch : List TaskItem} {lastMsg : TaskItem}
    (hp : s.phase i = .publishing batch) (hlast : batch.getLast? = some lastMsg) :
    Pending ({ s with sent := s.sent ++ batch }.goto i (.confirm lastMsg.id batch)) := by
  have hcont : Continues s.api s.accepted batch := by
    simpa [hp, Phase.Sound] using h.phase i
  have hphase := Phase.sound_confirm hcont (fun t ht => Or.inr ht)
    ⟨lastMsg, List.mem_of_getLast? hlast, rfl⟩
  have hsent : Pending { s with sent := s.sent ++ batch } := ⟨h.phase, h.late⟩
  exact hsent.goto i hphase

/-- A handle that resolves to `Ok` is that of an accepted message. -/
theorem Pending.handle (h : Pending s) {i : ι} {lastMsgId : TaskItemId} {task : TaskItem}
    {waiting : List TaskItem} (hp : s.phase i = .confirming lastMsgId (task :: waiting))
    (htopic : task ∈ s.topic) : Pending (s.goto i (.confirm lastMsgId waiting)) := by
  obtain ⟨batch, hcont, hwait, hlast⟩ : (Phase.confirming lastMsgId (task :: waiting)).Sound
      s.api s.accepted := hp ▸ h.phase i
  refine h.goto i (Phase.sound_confirm hcont (fun t ht => ?_) hlast)
  rcases hwait t ht with hmem | hmem
  · exact Or.inl hmem
  · rcases List.mem_cons.1 hmem with rfl | hmem
    · exact Or.inl htopic
    · exact Or.inr hmem

/-- One step keeps what is pending sound, and is a run of the cursor machine. -/
theorem pending_step {a : Action ι} (hsafe : Cursor.Safe s.toCursor) (h : Pending s)
    (hs : step chain limitItems s a = some s') :
    Pending s' ∧ Reach Cursor.Step s.toCursor s'.toCursor := by
  cases acts_of_step hs with
  | listTask task hnew =>
    refine ⟨⟨fun i => (h.phase i).push hnew, fun u hu => (h.late u hu).push hnew⟩, ?_⟩
    exact .single (a := .list task) ⟨hnew, rfl⟩
  | peekLast i hp => exact ⟨h.goto i hsafe, .refl⟩
  | fetch i c response sorted hp htasks hsort =>
    have hc : s.api.Covers s.accepted c := by simpa [hp, Phase.Sound] using h.phase i
    rw [htasks] at hsort
    exact ⟨h.goto i (Phase.sound_publishBatch (continues_of_sorted hc hsort)), .refl⟩
  | publishBatch i batch lastMsg hp hlast => exact ⟨h.publishBatch hp hlast, .refl⟩
  | accept task hsent =>
    have hsub : s.accepted ⊆ State.accepted { s with topic := task :: s.topic } :=
      fun u hu => List.mem_cons_of_mem _ hu
    exact ⟨⟨fun i => (h.phase i).mono hsub, fun u hu => (h.late u hu).mono hsub⟩,
      toCursor_accept s task⟩
  | handle i lastMsgId task waiting hp htopic => exact ⟨h.handle hp htopic, .refl⟩
  | upsert i lastMsgId hp =>
    have hsaved : Pending { s with lastMessageId := some lastMsgId } := ⟨h.phase, h.late⟩
    exact ⟨hsaved.goto i trivial, .single (a := .seek _) ⟨h.covers_saving hp, rfl⟩⟩
  | upsertFails i lastMsgId hp => exact ⟨(h.giveUp (h.covers_saving hp)).fail i _, .refl⟩
  | lateUpsert k lastMsgId hk =>
    have hcov := h.late lastMsgId (List.mem_of_getElem? hk)
    exact ⟨⟨h.phase, fun u hu => h.late u (List.mem_of_mem_eraseIdx hu)⟩,
      .single (a := .seek _) ⟨hcov, rfl⟩⟩
  | crash i => exact ⟨h.goto i trivial, .refl⟩
  | crashSaving i lastMsgId hp =>
    exact ⟨(h.giveUp (h.covers_saving hp)).goto i trivial, .refl⟩
  | peekFails i | fetchFails i | batchFails i | handleFails i => exact ⟨h.fail i _, .refl⟩

theorem refines_cursor : Refines (ofFn (step chain limitItems)) Cursor.Step State.toCursor
    fun s : State ι => Cursor.Safe s.toCursor ∧ Pending s :=
  Cursor.refines_of_step fun _ _ _ => pending_step

/-- **Over Pub/Sub and Redis the subscriber skips no task.** In every reachable state of any number
of instances, every task at or before the id in Redis has been accepted by the topic. -/
theorem gcp_subscriber_skips_none
    (h : Reach (ofFn (step chain limitItems)) (init ι) s) : NeverSkips s := by
  have hsafe : Cursor.Safe (init ι).toCursor := Feed.covers_none _ _
  exact (Cursor.safe_of_refines refines_cursor ⟨hsafe, pending_init⟩ hsafe h).done

/-- The theorem on two instances, one of which publishes half its batch. -/
theorem gcp_subscriber_skips_none_two_instances :
    ∃ s : State Bool, s.lastMessageId = some ⟨1⟩ ∧ NeverSkips s := by
  let t₁ : TaskItem := ⟨⟨1⟩, ⟨5, 0⟩, .gatewayTx ⟨[]⟩⟩
  let t₂ : TaskItem := ⟨⟨2⟩, ⟨3, 0⟩, .gatewayTx ⟨[]⟩⟩
  obtain ⟨s, hs, hp⟩ := exists_reach_of_exec (step "solana" 10) (init Bool)
    [.listTask t₁, .listTask t₂, .peekLast false true, .peekLast true true,
      .fetch false (.ok ⟨[t₁, t₂]⟩) [t₂, t₁], .fetch true (.ok ⟨[t₁, t₂]⟩) [t₂, t₁],
      .publishBatch false true, .accept t₂, .handle false true, .handle false false,
      .publishBatch true true, .handle true true, .accept t₁, .handle true true,
      .upsert true true]
    (fun s => s.lastMessageId == some ⟨1⟩) (by decide)
  exact ⟨s, by simpa using hp, gcp_subscriber_skips_none hs⟩

end Gcp
end Subscriber
end RelayerCore
