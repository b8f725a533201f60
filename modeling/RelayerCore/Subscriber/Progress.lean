import RelayerCore.Lib.Fair
import RelayerCore.Subscriber.Gcp

/-!
# The subscriber over Pub/Sub and Redis gets on

Each round moves the cursor to the latest task of its batch by timestamp, wherever that one stands
in the listing.  All of the batch stands behind the cursor, so every round that fetches something
moves the cursor forward; only a write that was given up on, and is applied late, moves it back,
and there are finitely many of them once nothing fails any more.
-/

namespace RelayerCore
namespace Subscriber
namespace Gcp

open Machine

/-! ### Positions in the listing -/

/-- How many tasks stand at or before a cursor. -/
def position (api : TaskFeed) (c : Option TaskItemId) : ℕ := (api.upTo c).length

theorem position_lt {api : TaskFeed} {c : Option TaskItemId} {t : TaskItem} (ht : t ∈ api.after c) :
    position api c < position api (some t.id) := by
  obtain ⟨p, q, hpq⟩ := List.append_of_mem ht
  have hsplit : api.entries = (api.upTo c ++ p) ++ t :: q := by
    rw [List.append_assoc, ← hpq, Feed.upTo_append_after]
  rw [position, position, Feed.upTo_of_split hsplit]
  simp only [List.length_append, List.length_singleton]
  omega

/-- A task that is not done yet stands behind every cursor that is covered. -/
theorem mem_after {api : TaskFeed} {S : Set TaskItem} {c : Option TaskItemId} {t : TaskItem}
    (hc : api.Covers S c) (ht : t ∈ api.entries) (hno : t ∉ S) : t ∈ api.after c := by
  rw [← api.upTo_append_after c] at ht
  exact (List.mem_append.1 ht).resolve_left fun hmem => hno (hc.done t hmem)

theorem exists_sortedByTimestamp (tasks : List TaskItem) :
    ∃ sorted, SortedByTimestamp tasks sorted := by
  let le : TaskItem → TaskItem → Bool := fun s t => s.timestamp ≤ t.timestamp
  have htrans : ∀ a b c, le a b → le b c → le a c := by
    intro a b c hab hbc
    simp only [le, decide_eq_true_eq] at *
    exact hab.trans hbc
  have htotal : ∀ a b, le a b || le b a := by
    intro a b
    simpa [le] using le_total a.timestamp b.timestamp
  refine ⟨tasks.mergeSort le, List.mergeSort_perm _ _, ?_⟩
  exact (List.pairwise_mergeSort htrans htotal tasks).imp fun hab => by simpa [le] using hab

/-! ### Rounds that can go on -/

/-- A batch is not empty, and the messages that are waited for were sent. -/
def Phase.Ready (sent : List TaskItem) : Phase → Prop
  | .publishing batch => batch ≠ []
  | .confirming _ waiting => waiting ≠ [] ∧ waiting ⊆ sent
  | _ => True

variable {ι : Type} {s s' : State ι}

structure Ready (s : State ι) : Prop where
  safe : Cursor.Safe s.toCursor
  pending : Pending s
  phase : ∀ i, (s.phase i).Ready s.sent

theorem Phase.Ready.mono {sent sent' : List TaskItem} {p : Phase} (h : p.Ready sent)
    (hsub : sent ⊆ sent') : p.Ready sent' := by
  cases p with
  | confirming id waiting => exact ⟨h.1, List.Subset.trans h.2 hsub⟩
  | idle | peeked | publishing | saving => exact h

theorem Phase.ready_publishBatch (sent batch : List TaskItem) :
    (Phase.publishBatch batch).Ready sent := by
  cases batch with
  | nil => trivial
  | cons t batch => exact List.cons_ne_nil _ _

theorem Phase.ready_confirm {sent waiting : List TaskItem} {id : TaskItemId}
    (h : waiting ⊆ sent) : (Phase.confirm id waiting).Ready sent := by
  cases waiting with
  | nil => trivial
  | cons t waiting => exact ⟨List.cons_ne_nil _ _, h⟩

variable [DecidableEq ι] {chain : String} {limitItems : UInt8}

/-- The phases after one instance has moved on. -/
theorem ready_update {sent sent' : List TaskItem} {i : ι} {p : Phase}
    (h : ∀ j, (s.phase j).Ready sent) (hsub : sent ⊆ sent') (hp : p.Ready sent') :
    ∀ j, (Function.update s.phase i p j).Ready sent' :=
  (Function.forall_update_iff s.phase fun _ q => q.Ready sent').2
    ⟨hp, fun j _ => (h j).mono hsub⟩

theorem ready_step {a : Action ι} (h : Ready s) (hs : step chain limitItems s a = some s') :
    Ready s' := by
  obtain ⟨hpend, hreach⟩ := pending_step h.safe h.pending hs
  refine ⟨Cursor.safe_of_reach h.safe hreach, hpend, ?_⟩
  have hgoto : ∀ i {p : Phase}, p.Ready s.sent →
      ∀ j, (Function.update s.phase i p j).Ready s.sent := fun i =>
    ready_update h.phase (List.Subset.refl _)
  cases acts_of_step hs with
  | listTask | accept | lateUpsert => exact h.phase
  | peekLast i => exact hgoto i trivial
  | fetch i => exact hgoto i (Phase.ready_publishBatch _ _)
  | publishBatch i =>
    exact ready_update h.phase (List.subset_append_left _ _)
      (Phase.ready_confirm (List.subset_append_right _ _))
  | handle i id task waiting hp =>
    have hwait := h.phase i
    rw [hp] at hwait
    exact hgoto i (Phase.ready_confirm (List.Subset.trans (List.subset_cons_self _ _) hwait.2))
  | peekFails i | fetchFails i | batchFails i | handleFails i | upsert i | upsertFails i
  | crash i | crashSaving i => exact hgoto i (p := .idle) trivial

theorem ready_of_reach (h : Reach (ofFn (step chain limitItems)) (init ι) s) : Ready s := by
  have hsafe : Cursor.Safe (init ι).toCursor := Feed.covers_none _ _
  exact h.invariant ⟨hsafe, pending_init, fun _ => trivial⟩ fun _ _ _ => ready_step

/-! ### One instance, without failures -/

/-- Only instance `i` runs, and no call fails; writes that failed before may still be applied. -/
def Smooth (i : ι) (_ : State ι) : Action ι → Prop
  | .listTask _ | .accept _ | .lateUpsert _ => True
  | .peekLast j ok | .publishBatch j ok | .handle j ok | .upsert j ok => j = i ∧ ok = true
  | .fetch j answer _ => j = i ∧ answer.toBool = true
  | .crash _ => False

instance (i : ι) (s : State ι) (a : Action ι) : Decidable (Smooth i s a) :=
  match a with
  | .listTask _ | .accept _ | .lateUpsert _ => isTrue trivial
  | .peekLast _ _ | .publishBatch _ _ | .handle _ _ | .upsert _ _ | .fetch _ _ _ =>
    inferInstanceAs (Decidable (_ ∧ _))
  | .crash _ => isFalse id

/-- Who has to move next: the instance with one of its calls, or the topic. -/
inductive Help
  | peekLast
  | fetch
  | publishBatch
  | accept (task : TaskItem)
  | handle
  | upsert

def Help.labels (i : ι) : Help → Set (Action ι)
  | .peekLast => {.peekLast i true}
  | .fetch => {a | ∃ answer sorted, a = .fetch i answer sorted}
  | .publishBatch => {.publishBatch i true}
  | .accept task => {.accept task}
  | .handle => {.handle i true}
  | .upsert => {.upsert i true}

/-- The topic is waited for while the next message of the batch has not been accepted; the calls of
the instance are waited for always. -/
def Help.Due (i : ι) : Help → State ι → Prop
  | .accept task, s => task ∉ s.topic ∧ ∃ id waiting, s.phase i = .confirming id (task :: waiting)
  | _, _ => True

/-- The cursor a round started from, or the one it will leave. -/
def State.base (s : State ι) (i : ι) : Option TaskItemId :=
  match s.phase i with
  | .idle => s.lastMessageId
  | .peeked lastTaskId => lastTaskId
  | .publishing batch => batch.getLast?.map TaskItem.id
  | .confirming lastMsgId _ => some lastMsgId
  | .saving lastMsgId => some lastMsgId

def helper (i : ι) (s : State ι) : Help :=
  match s.phase i with
  | .idle => .peekLast
  | .peeked _ => .fetch
  | .publishing _ => .publishBatch
  | .confirming _ [] => .handle
  | .confirming _ (task :: _) => if task ∈ s.topic then .handle else .accept task
  | .saving _ => .upsert

/-- The steps until the next round fetches. -/
def rank (i : ι) (s : State ι) : ℕ :=
  match s.phase i with
  | .idle => 2
  | .peeked _ => 1
  | .publishing batch => 2 * batch.length + 4
  | .confirming _ [] => 0
  | .confirming _ (task :: waiting) => 2 * waiting.length + if task ∈ s.topic then 4 else 5
  | .saving _ => 3

/-- The writes that may still be applied, and how far the cursor is from the task. -/
def measure (i : ι) (t : TaskItem) (s : State ι) : ℕ ×ₗ ℕ :=
  toLex (s.lateUpserts.length,
    position s.api (some t.id) - position s.api (s.base i))

omit [DecidableEq ι] in
/-- The cursor of a round is listed. -/
theorem base_known (h : Ready s) (i : ι) : ∀ id ∈ s.base i, id ∈ s.api.keys := by
  have hsound := h.pending.phase i
  unfold State.base
  cases hp : s.phase i with
  | idle => exact h.safe.known
  | peeked c =>
    rw [hp] at hsound
    exact hsound.known
  | publishing batch =>
    rw [hp] at hsound
    intro id hid
    obtain ⟨t, ht, rfl⟩ := Option.map_eq_some_iff.1 hid
    exact List.mem_map_of_mem (Continues.subset hsound (List.mem_of_getLast? ht))
  | confirming id waiting =>
    rw [hp] at hsound
    obtain ⟨batch, hcont, -, t, ht, rfl⟩ := hsound
    rintro _ ⟨⟩
    exact List.mem_map_of_mem (hcont.subset ht)
  | saving id =>
    rw [hp] at hsound
    exact hsound.known

theorem enabled_helper (h : Ready s) (i : ι) :
    Enabled (when (ofFn (step chain limitItems)) (Smooth i)) ((helper i s).labels i) s := by
  have hready := h.phase i
  unfold helper
  cases hp : s.phase i with
  | idle =>
    exact ⟨.peekLast i true, rfl, s.goto i (.peeked s.lastMessageId), ⟨rfl, rfl⟩,
      by simp [ofFn, step, hp]⟩
  | peeked c =>
    obtain ⟨sorted, hsorted⟩ := exists_sortedByTimestamp (s.api.getChains c (some limitItems))
    exact ⟨.fetch i (.ok ⟨s.api.getChains c (some limitItems)⟩) sorted, ⟨_, _, rfl⟩,
      s.goto i (.publishBatch sorted), ⟨rfl, rfl⟩,
      by simp [ofFn, step, hp, getChainsRequest, hsorted]⟩
  | publishing batch =>
    rw [hp] at hready
    exact ⟨.publishBatch i true, rfl,
      { s with sent := s.sent ++ batch }.goto i (.confirm (batch.getLast hready).id batch),
      ⟨rfl, rfl⟩, by simp [ofFn, step, hp, List.getLast?_eq_some_getLast hready]⟩
  | confirming id waiting =>
    rw [hp] at hready
    cases waiting with
    | nil => exact absurd rfl hready.1
    | cons task waiting =>
      by_cases htopic : task ∈ s.topic
      · simp only [htopic, if_true]
        exact ⟨.handle i true, rfl, s.goto i (.confirm id waiting), ⟨rfl, rfl⟩,
          by simp [ofFn, step, hp, htopic]⟩
      · simp only [htopic, if_false]
        exact ⟨.accept task, rfl, { s with topic := task :: s.topic }, trivial,
          if_pos (hready.2 List.mem_cons_self)⟩
  | saving id =>
    exact ⟨.upsert i true, rfl, { s with lastMessageId := some id }.goto i .idle, ⟨rfl, rfl⟩,
      by simp [ofFn, step, hp]⟩

omit [DecidableEq ι] in
theorem helper_due (s : State ι) (i : ι) : (helper i s).Due i s := by
  unfold helper
  cases hp : s.phase i with
  | idle | peeked | publishing | saving => trivial
  | confirming id waiting =>
    cases waiting with
    | nil => trivial
    | cons task waiting =>
      by_cases htopic : task ∈ s.topic
      · simp only [htopic, if_true]
        trivial
      · simp only [htopic, if_false]
        exact ⟨htopic, id, waiting, hp⟩

/-! ### What a step does to the measure and the rank -/

/-- A step brings the instance closer to its next request, or leaves it where it is. -/
def Closer (i : ι) (a : Action ι) (s s' : State ι) : Prop :=
  rank i s' < rank i s ∨
    rank i s' = rank i s ∧ helper i s' = helper i s ∧ a ∉ (helper i s).labels i

theorem base_confirm (s : State ι) (i : ι) (id : TaskItemId) (waiting : List TaskItem) :
    (s.goto i (.confirm id waiting)).base i = some id := by
  cases waiting <;> simp [State.base, State.goto, Phase.confirm]

theorem rank_confirm_lt (s : State ι) (i : ι) (id : TaskItemId) (waiting : List TaskItem) :
    rank i (s.goto i (.confirm id waiting)) < 2 * waiting.length + 4 := by
  cases waiting with
  | nil => simp [rank, State.goto, Phase.confirm]
  | cons task waiting =>
    have hphase : (s.goto i (.confirm id (task :: waiting))).phase i =
        .confirming id (task :: waiting) := Function.update_self ..
    have hrank : rank i (s.goto i (.confirm id (task :: waiting))) =
        2 * waiting.length + if task ∈ s.topic then 4 else 5 := by
      rw [rank, hphase]
      rfl
    rw [hrank, List.length_cons]
    split_ifs <;> omega

omit [DecidableEq ι] in
/-- The listing grows behind every cursor. -/
theorem measure_push (h : Ready s) {i : ι} {t task : TaskItem} (ht : t ∈ s.api.entries)
    (hnew : task.id ∉ s.api.keys) :
    measure i t { s with api := s.api.push task hnew } = measure i t s := by
  have hknown : ∀ id ∈ some t.id, id ∈ s.api.keys := by
    rintro _ ⟨⟩
    exact List.mem_map_of_mem ht
  have hbase : ({ s with api := s.api.push task hnew } : State ι).base i = s.base i := rfl
  simp only [measure, position, hbase, Feed.upTo_push hnew hknown,
    Feed.upTo_push hnew (base_known h i)]

omit [DecidableEq ι] in
/-- The topic accepts the message that is waited for, or another one. -/
theorem closer_accept (s : State ι) (i : ι) (task : TaskItem) :
    Closer i (.accept task) s { s with topic := task :: s.topic } := by
  unfold Closer rank helper
  dsimp only
  cases s.phase i with
  | idle | peeked | publishing | saving => exact Or.inr ⟨rfl, rfl, by simp [Help.labels]⟩
  | confirming id waiting =>
    cases waiting with
    | nil => exact Or.inr ⟨rfl, rfl, by simp [Help.labels]⟩
    | cons u waiting =>
      by_cases hu : u ∈ s.topic
      · exact Or.inr ⟨by simp [hu], by simp [hu], by simp [hu, Help.labels]⟩
      · by_cases hut : u = task
        · exact Or.inl (by simp [hut, hut ▸ hu])
        · refine Or.inr ⟨by simp [hu, hut], by simp [hu, hut], ?_⟩
          simp [hu, Help.labels, Ne.symm hut]

/-- A round that fetches something will move the cursor forward. -/
theorem measure_fetch (hlimit : 0 < limitItems) (h : Ready s) {i : ι} {t : TaskItem}
    (ht : t ∈ s.api.entries) (hno : t ∉ s.topic) {c : Option TaskItemId}
    (hp : s.phase i = .peeked c) {sorted : List TaskItem}
    (hsort : SortedByTimestamp (s.api.getChains c (some limitItems)) sorted) :
    measure i t (s.goto i (.publishBatch sorted)) < measure i t s := by
  have hsound := h.pending.phase i
  rw [hp] at hsound
  have hafter := mem_after hsound ht hno
  have hbatch : sorted ⊆ s.api.after c :=
    List.Subset.trans hsort.1.subset (List.take_subset _ _)
  have hne : sorted ≠ [] := by
    rintro rfl
    have hlength := hsort.1.length_eq
    have hpos : 0 < limitItems.toNat := hlimit
    have hlen := List.length_pos_of_mem hafter
    simp only [TaskFeed.getChains, List.length_nil, List.length_take] at hlength
    omega
  obtain ⟨x, hx⟩ : ∃ x, sorted.getLast? = some x := ⟨_, List.getLast?_eq_some_getLast hne⟩
  have hbase : (s.goto i (.publishBatch sorted)).base i = some x.id := by
    cases sorted with
    | nil => exact absurd rfl hne
    | cons u sorted => simp [State.base, State.goto, Phase.publishBatch, hx]
  have hold : s.base i = c := by simp [State.base, hp]
  have hposx := position_lt (hbatch (List.mem_of_getLast? hx))
  have hpost := position_lt hafter
  have hapi : (s.goto i (.publishBatch sorted)).api = s.api := rfl
  refine Prod.Lex.right _ ?_
  rw [hbase, hold, hapi]
  omega

theorem smooth_step (hlimit : 0 < limitItems) {i : ι} {t : TaskItem} {a : Action ι} (h : Ready s)
    (ht : t ∈ s.api.entries) (hno : t ∉ s.topic) (hsmooth : Smooth i s a)
    (hs : step chain limitItems s a = some s') :
    t ∈ s'.api.entries ∧ (measure i t s' < measure i t s ∨
      measure i t s' = measure i t s ∧ Closer i a s s') := by
  cases acts_of_step hs with
  | listTask task hnew =>
    refine ⟨List.mem_append_left _ ht, Or.inr ⟨measure_push h ht hnew, Or.inr ⟨rfl, rfl, ?_⟩⟩⟩
    cases helper i s <;> simp [Help.labels]
  | accept task => exact ⟨ht, Or.inr ⟨rfl, closer_accept s i task⟩⟩
  | lateUpsert k id hk =>
    obtain ⟨hlt, -⟩ := List.getElem?_eq_some_iff.1 hk
    refine ⟨ht, Or.inl (Prod.Lex.left _ _ ?_)⟩
    rw [List.length_eraseIdx_of_lt hlt]
    omega
  | peekLast j hp =>
    obtain ⟨rfl, -⟩ := hsmooth
    refine ⟨ht, Or.inr ⟨?_, Or.inl ?_⟩⟩
    · simp [measure, State.base, State.goto, hp]
    · simp [rank, State.goto, hp]
  | fetch j c response sorted hp htasks hsort =>
    obtain ⟨rfl, -⟩ := hsmooth
    exact ⟨ht, Or.inl (measure_fetch hlimit h ht hno hp (htasks ▸ hsort))⟩
  | publishBatch j batch lastMsg hp hlast =>
    obtain ⟨rfl, -⟩ := hsmooth
    refine ⟨ht, Or.inr ⟨?_, Or.inl ?_⟩⟩
    · have hold : s.base j = some lastMsg.id := by simp [State.base, hp, hlast]
      simp only [measure, base_confirm, hold]
      rfl
    · have hold : rank j s = 2 * batch.length + 4 := by simp [rank, hp]
      rw [hold]
      exact rank_confirm_lt _ _ _ _
  | handle j id task waiting hp htopic =>
    obtain ⟨rfl, -⟩ := hsmooth
    refine ⟨ht, Or.inr ⟨?_, Or.inl ?_⟩⟩
    · have hold : s.base j = some id := by simp [State.base, hp]
      simp only [measure, base_confirm, hold]
      rfl
    · have hold : rank j s = 2 * waiting.length + 4 := by simp [rank, hp, htopic]
      rw [hold]
      exact rank_confirm_lt _ _ _ _
  | upsert j id hp =>
    obtain ⟨rfl, -⟩ := hsmooth
    refine ⟨ht, Or.inr ⟨?_, Or.inl ?_⟩⟩
    · simp [measure, State.base, State.goto, hp]
    · simp [rank, State.goto, hp]
  | batchFails j encoded batch hp hfail =>
    -- a batch is never empty
    have hready := h.phase j
    rw [hp] at hready
    exact absurd (hfail hsmooth.2) hready
  | peekFails | fetchFails | handleFails | upsertFails => cases hsmooth.2
  | crash | crashSaving => exact hsmooth.elim

theorem ranking (hlimit : 0 < limitItems) (i : ι) (t : TaskItem) (v : ℕ ×ₗ ℕ) :
    Ranking (when (ofFn (step chain limitItems)) (Smooth i)) (Help.labels i)
      (fun s => (Ready s ∧ t ∈ s.api.entries) ∧ measure i t s = v)
      (fun s => t ∈ s.topic ∨ (Ready s ∧ t ∈ s.api.entries) ∧ measure i t s < v) (rank i)
      (helper i) where
  enabled s h _ := enabled_helper h.1.1 i
  step s a s' h hno hs := by
    obtain ⟨⟨hready, ht⟩, rfl⟩ := h
    have hready' := ready_step hready hs.2
    obtain ⟨ht', hless | ⟨hsame, hcloser⟩⟩ :=
      smooth_step hlimit hready ht (fun htopic => hno (Or.inl htopic)) hs.1 hs.2
    · exact Or.inl (Or.inr ⟨⟨hready', ht'⟩, hless⟩)
    · exact Or.inr ⟨⟨⟨hready', ht'⟩, hsame⟩, hcloser⟩

/-- What is listed is published. -/
theorem published (hlimit : 0 < limitItems) {i : ι}
    (ρ : Execution (when (ofFn (step chain limitItems)) (Smooth i)))
    (hfair : ∀ help : Help, ρ.FairWhile (help.Due i) (help.labels i)) {n : ℕ} {t : TaskItem}
    (hready : Ready (ρ.state n)) (ht : t ∈ (ρ.state n).api.entries) :
    ∃ m ≥ n, t ∈ (ρ.state m).topic :=
  Ranking.leadsTo_while_of_measure (P := fun s => Ready s ∧ t ∈ s.api.entries) (measure i t)
    (ranking hlimit i t) ρ (fun s _ _ => helper_due s i) hfair ⟨hready, ht⟩

/-- **Once nothing fails any more every listed task is published**, whatever the timestamps of the
tasks and whatever happened before: in an execution that is fair to the one instance that runs, and
to the topic while that instance waits for it to accept a message. -/
theorem gcp_subscriber_publishes_all (hlimit : 0 < limitItems) {i : ι}
    (ρ : Execution (when (ofFn (step chain limitItems)) (Smooth i)))
    (h0 : Reach (ofFn (step chain limitItems)) (init ι) (ρ.state 0))
    (hfair : ∀ help : Help, ρ.FairWhile (help.Due i) (help.labels i)) {n : ℕ} {t : TaskItem}
    (ht : t ∈ (ρ.state n).api.entries) : ∃ m ≥ n, t ∈ (ρ.state m).topic := by
  refine published hlimit ρ hfair (ready_of_reach (h0.trans ?_)) ht
  exact (ρ.reach n).of_when

/-! ### An instance that runs for ever -/

/-- An empty gateway transaction. -/
def onlyTask : TaskItem := ⟨⟨1⟩, ⟨5, 0⟩, .gatewayTx ⟨[]⟩⟩

/-- The task is listed, and one of two instances fails and crashes. -/
def listed : List (Action Bool) := [.listTask onlyTask, .peekLast true false, .crash true]

/-- The other one publishes the task. -/
def publishes : List (Action Bool) :=
  [.peekLast false true, .fetch false (.ok ⟨[onlyTask]⟩) [onlyTask], .publishBatch false true,
    .accept onlyTask, .handle false true, .upsert false true]

/-- And then there is nothing left to be fetched, and the topic accepts nothing more. -/
def fetchesNothing : List (Action Bool) := [.peekLast false true, .fetch false (.ok ⟨[]⟩) []]

def Phase.isIdle : Phase → Bool
  | .idle => true
  | _ => false

theorem Phase.isIdle_iff {p : Phase} : p.isIdle = true ↔ p = .idle := by
  cases p <;> simp [isIdle]

/-- The task is published and its id is saved. -/
structure Saved (s : State Bool) : Prop where
  idle : s.phase false = .idle
  saved : s.lastMessageId = some onlyTask.id
  api : s.api.entries = [onlyTask]

theorem saved_fetchesNothing {s : State Bool} (h : Saved s) :
    ∃ s', exec (guarded (step "solana" 10) (Smooth false)) s fetchesNothing = some s' ∧
      Saved s' := by
  obtain ⟨hidle, hsaved, hapi⟩ := h
  have hnone : s.api.getChains (some onlyTask.id) (some 10) = [] := by
    simp [TaskFeed.getChains, Feed.after, hapi, Feed.dropUpTo]
  let s₁ := s.goto false (.peeked (some onlyTask.id))
  let s₂ := s₁.goto false .idle
  have h₁ : guarded (step "solana" 10) (Smooth false) s (.peekLast false true) = some s₁ := by
    refine guarded_eq_some.2 ⟨⟨rfl, rfl⟩, ?_⟩
    simp [ofFn, step, hidle, hsaved, s₁]
  have h₂ : guarded (step "solana" 10) (Smooth false) s₁ (.fetch false (.ok ⟨[]⟩) []) =
      some s₂ := by
    refine guarded_eq_some.2 ⟨⟨rfl, rfl⟩, ?_⟩
    have hp : s₁.phase false = .peeked (some onlyTask.id) := by simp [s₁, State.goto]
    have hans : s₁.api.getChains (some onlyTask.id) (some 10) = [] := hnone
    simp [ofFn, step, hp, getChainsRequest, hans, SortedByTimestamp, Phase.publishBatch, s₂]
  refine ⟨s₂, ?_, ⟨?_, hsaved, hapi⟩⟩
  · simp [fetchesNothing, exec, h₁, h₂]
  · simp [s₂, State.goto]

def fetchesForEver {s : State Bool} (h : Saved s) :
    Execution (when (ofFn (step "solana" 10)) (Smooth false)) :=
  ofCycleWhen (fun _ => saved_fetchesNothing) (by decide) h

/-- The calls that the rounds leave out have nothing to do, and no message is waited for. -/
theorem fetchesNothing_or_disabled (help : Help) :
    (∃ a ∈ fetchesNothing, a ∈ help.labels false) ∨
      ∀ s, Saved s → help.Due false s → ∀ a ∈ help.labels false, step "solana" 10 s a = none := by
  cases help with
  | peekLast => exact Or.inl ⟨.peekLast false true, by simp [fetchesNothing], rfl⟩
  | fetch => exact Or.inl ⟨.fetch false (.ok ⟨[]⟩) [], by simp [fetchesNothing], _, _, rfl⟩
  | accept task =>
    refine Or.inr ?_
    rintro s hs ⟨-, id, waiting, hp⟩
    rw [hs.idle] at hp
    cases hp
  | publishBatch | handle | upsert =>
    refine Or.inr ?_
    rintro s hs - a rfl
    simp [step, hs.idle]

/-- The run is fair to the instance, and to the topic while it is waited for. -/
theorem fair_fetchesForEver {s : State Bool} (h : Saved s) (help : Help) :
    (fetchesForEver h).FairWhile (help.Due false) (help.labels false) :=
  fairWhile_ofCycleWhen _ _ h (fetchesNothing_or_disabled help)

/-- The theorem on that run. -/
theorem gcp_subscriber_publishes_all_once :
    ∃ ρ : Execution (when (ofFn (step "solana" 10)) (Smooth false)),
      (ρ.state 0).topic = [] ∧ ∃ m, onlyTask ∈ (ρ.state m).topic := by
  obtain ⟨s, hs, hp⟩ := exists_reach_of_exec (step "solana" 10) (init Bool) listed
    (fun s => s.topic == [] && s.api.entries == [onlyTask] &&
      (exec (guarded (step "solana" 10) (Smooth false)) s publishes).any fun s' =>
        (s'.phase false).isIdle && s'.lastMessageId == some onlyTask.id &&
          s'.api.entries == [onlyTask]) (by decide)
  simp only [Bool.and_eq_true, beq_iff_eq, Option.any_eq_true, Phase.isIdle_iff] at hp
  obtain ⟨⟨htopic, hapi⟩, s', hs', ⟨hidle, hsaved⟩, hapi'⟩ := hp
  have hend : Saved s' := ⟨hidle, hsaved, hapi'⟩
  have hreach : Reach (when (ofFn (step "solana" 10)) (Smooth false)) s
      ((fetchesForEver hend).state 0) := by
    rw [fetchesForEver, ofCycleWhen_zero]
    exact (reach_of_exec hs').mono fun _ _ _ => guarded_eq_some.1
  obtain ⟨ρ, h0, hfair⟩ := (fetchesForEver hend).exists_of_reach hreach
  have hlisted : onlyTask ∈ (ρ.state 0).api.entries := by simp [h0, hapi]
  obtain ⟨m, -, hm⟩ := gcp_subscriber_publishes_all (by decide) ρ (h0 ▸ hs)
    (fun help => hfair _ _ (fair_fetchesForEver hend help)) hlisted
  exact ⟨ρ, by rw [h0, htopic], m, hm⟩

end Gcp
end Subscriber
end RelayerCore
