import RelayerCore.Subscriber.Subscribe
import RelayerCore.Lib.SharedStore

/-!
# Subscribers that share one Redis (`amplifier-subscriber/src/components/gcp.rs`)

Every GCP subscriber keeps its cursor under the key `last-task`, whatever its chain.  Between two
requests of a subscriber its rounds depend only on the API and on the topic, so it is a party with
a common store, and asks for the same tasks as without the others exactly if its requests find the
id it wrote itself.
-/

namespace RelayerCore
namespace Subscriber
namespace Shared

open Machine SharedStore

/-- `TASK_KEY`. -/
def taskKey : String := "last-task"

/-- The settings of a subscriber that decide what it asks for. -/
structure Config where
  chain : String
  limitPerRequest : UInt8

/-- A `Subscriber` with a `PeekableGcpPublisher`, whose `RedisClient` uses `key`. -/
structure GcpSubscriber where
  chain : String
  limitItems : UInt8
  key : String

def newAmplifierSubscriber (config : Config) : GcpSubscriber where
  chain := config.chain
  limitItems := config.limitPerRequest
  key := taskKey

/-- Where a subscriber stands in its round. -/
inductive Phase
  | idle
  | awaiting
  | publishing (batch : List TaskItem)
  | saving (lastMsgId : TaskItemId)
  deriving DecidableEq

/-- A subscriber, with the Redis writes that failed but may still be applied. -/
structure Round where
  phase : Phase
  lateUpserts : List TaskItemId
  deriving DecidableEq

def Round.start : Round := { phase := .idle, lateUpserts := [] }

/-- The steps of a subscriber.  `send` reads the cursor and sends the request; the answer, the
outcome of the publishing and that of the Redis write are up to the others. -/
inductive Act
  | peekFails
  | buildFails
  | send
  | answer (answer : Except CallError GetTasksResult) (sorted : List TaskItem)
  | publishBatch (ok : Bool)
  | upsert (ok : Bool)
  | lateUpsert (k : ℕ)
  | crash
  deriving DecidableEq

def Round.goto (self : Round) (phase : Phase) : Round := { self with phase := phase }

/-- A step, and the id it writes to Redis. -/
def Round.act (self : Round) : Act → Option (Round × Option (Option TaskItemId))
  | .peekFails | .buildFails => if self.phase = .idle then some (self, none) else none
  | .send => if self.phase = .idle then some (self.goto .awaiting, none) else none
  | .answer answer sorted =>
    if self.phase = .awaiting then
      match answer with
      | .error _ => some (self.goto .idle, none)
      | .ok response =>
        if SortedByTimestamp response.tasks sorted then
          some (self.goto (if sorted = [] then .idle else .publishing sorted), none)
        else none
    else none
  | .publishBatch ok =>
    match self.phase with
    | .publishing batch =>
      match batch.getLast?, ok with
      | some lastMsg, true => some (self.goto (.saving lastMsg.id), none)
      | _, _ => some (self.goto .idle, none)
    | _ => none
  | .upsert ok =>
    match self.phase with
    | .saving lastMsgId =>
      if ok then some (self.goto .idle, some (some lastMsgId))
      else some ({ self.goto .idle with lateUpserts := lastMsgId :: self.lateUpserts }, none)
    | _ => none
  | .lateUpsert k =>
    self.lateUpserts[k]?.map fun lastMsgId =>
      ({ self with lateUpserts := self.lateUpserts.eraseIdx k }, some (some lastMsgId))
  | .crash =>
    match self.phase with
    | .saving lastMsgId =>
      some ({ self.goto .idle with lateUpserts := lastMsgId :: self.lateUpserts }, none)
    | _ => some (self.goto .idle, none)

/-- The request of a step, from the cursor it reads. -/
def GcpSubscriber.request (self : GcpSubscriber) (round : Round) (a : Act) :
    Option (Option TaskItemId → GetChains) :=
  if round.phase = .idle ∧ a = .send then some (getChainsRequest self.chain self.limitItems)
  else none

/-- A subscriber as a party of the Redis. -/
def GcpSubscriber.party (self : GcpSubscriber) :
    Party String Round Act (Option TaskItemId) GetChains where
  cell := self.key
  act := Round.act
  shows := self.request

variable {ι : Type} [DecidableEq ι]

/-- The subscribers of these configurations on one Redis, which holds `redis` at first. -/
def system (configs : ι → Config) (redis : String → Option TaskItemId) :
    State ι String Round (Option TaskItemId) GetChains :=
  init (fun i => (newAmplifierSubscriber (configs i)).party) redis fun _ => .start

def step (configs : ι → Config) (s : State ι String Round (Option TaskItemId) GetChains)
    (a : ι × Act) : Option (State ι String Round (Option TaskItemId) GetChains) :=
  SharedStore.step (fun i => (newAmplifierSubscriber (configs i)).party) s a

/-- A request of the subscriber finds in Redis the id it wrote last itself, or what was there at
first if it has written none. -/
def ReadsOwn (i : ι) (s : State ι String Round (Option TaskItemId) GetChains) (a : ι × Act) :
    Prop :=
  a = (i, .send) → (s.locals i).phase = .idle → s.store taskKey = s.own i

omit [DecidableEq ι] in
theorem getChainsRequest_inj {chain : String} {limit : UInt8} {c c' : Option TaskItemId} :
    getChainsRequest chain limit c = getChainsRequest chain limit c' ↔ c = c' := by
  constructor
  · intro h
    exact congrArg GetChains.after h
  · rintro rfl
    rfl

instance (i : ι) (s : State ι String Round (Option TaskItemId) GetChains) (a : ι × Act) :
    Decidable (ReadsOwn i s a) := by
  unfold ReadsOwn
  infer_instance

omit [DecidableEq ι] in
/-- A step shows its own exactly if it is no request, or one that reads its own cursor. -/
theorem showsOwn_iff (configs : ι → Config) (i : ι)
    (s : State ι String Round (Option TaskItemId) GetChains) (a : ι × Act) :
    ShowsOwn (fun i => (newAmplifierSubscriber (configs i)).party) i s a ↔ ReadsOwn i s a := by
  obtain ⟨j, act⟩ := a
  by_cases hsend : (s.locals i).phase = .idle ∧ act = .send
  · have hshows : (newAmplifierSubscriber (configs i)).request (s.locals i) act =
        some (getChainsRequest (configs i).chain (configs i).limitPerRequest) := if_pos hsend
    obtain ⟨hidle, rfl⟩ := hsend
    have hiff : ((newAmplifierSubscriber (configs i)).request (s.locals i) .send).map
          (· (s.store taskKey)) =
        ((newAmplifierSubscriber (configs i)).request (s.locals i) .send).map (· (s.own i)) ↔
          s.store taskKey = s.own i := by
      rw [hshows, Option.map_some, Option.map_some, Option.some_inj, getChainsRequest_inj]
    constructor
    · intro h heq _
      exact hiff.mp (h (congrArg Prod.fst heq))
    · intro h heq
      exact hiff.mpr (h (Prod.ext heq rfl) hidle)
  · have hshows : (newAmplifierSubscriber (configs i)).request (s.locals i) act = none :=
      if_neg hsend
    constructor
    · intro _ heq hidle
      exact absurd ⟨hidle, congrArg Prod.snd heq⟩ hsend
    · intro _ _
      show (GcpSubscriber.request _ _ _).map _ = (GcpSubscriber.request _ _ _).map _
      rw [hshows]
      rfl

/-- **A subscriber asks for the same tasks without the others exactly if its requests find its own
cursor.** In every run of any number of subscribers, and for each of them, its own steps, with the
same answers, can also be taken alone; its requests are then the same if and only if each of them
found in Redis what it had itself written last. -/
theorem requests_same_alone_iff (configs : ι → Config) (redis : String → Option TaskItemId)
    {tr : List (State ι String Round (Option TaskItemId) GetChains × (ι × Act))}
    {s : State ι String Round (Option TaskItemId) GetChains}
    (h : Run (ofFn (step configs)) (system configs redis) tr s) (i : ι) :
    ∃ s', exec (step configs) (system configs redis) (labelsOf i tr) = some s' ∧
      (s'.shown i = s.shown i ↔ ∀ p ∈ tr, ReadsOwn i p.1 p.2) := by
  obtain ⟨s', hexec, -, -, hiff⟩ := alone_shows_same_iff h i
  refine ⟨s', hexec, hiff.trans (forall₂_congr fun p _ => ?_)⟩
  exact showsOwn_iff configs i p.1 p.2

/-- Subscribers with keys of their own do not notice each other; `newAmplifierSubscriber` gives all
of them the same. -/
theorem requests_same_alone_of_own_key (subscribers : ι → GcpSubscriber)
    (redis : String → Option TaskItemId)
    {tr : List (State ι String Round (Option TaskItemId) GetChains × (ι × Act))}
    {s : State ι String Round (Option TaskItemId) GetChains}
    (h : Run (ofFn (SharedStore.step fun i => (subscribers i).party))
      (init (fun i => (subscribers i).party) redis fun _ => .start) tr s)
    {i : ι} (hkey : ∀ j, j ≠ i → (subscribers j).key ≠ (subscribers i).key) :
    ∃ s', exec (SharedStore.step fun i => (subscribers i).party)
        (init (fun i => (subscribers i).party) redis fun _ => .start) (labelsOf i tr) = some s' ∧
      s'.shown i = s.shown i :=
  alone_shows_same_of_private h hkey

/-! ### Two chains -/

/-- Two subscribers: `true` for one chain, `false` for another. -/
def twoChains : Bool → Config
  | true => ⟨"ethereum", 100⟩
  | false => ⟨"solana", 100⟩

/-- A task of the chain `solana`. -/
def solanaTask : TaskItem := ⟨⟨7⟩, ⟨0, 0⟩, .gatewayTx ⟨[]⟩⟩

/-- A round of a subscriber that gets and publishes a task. -/
def roundOf (i : Bool) (task : TaskItem) : List (Bool × Act) :=
  [(i, .send), (i, .answer (.ok ⟨[task]⟩) [task]), (i, .publishBatch true), (i, .upsert true)]

/-- The first subscriber makes its first request before the second has written anything. -/
theorem requests_same_alone_before_foreign_write :
    ∃ (tr : List (State Bool String Round (Option TaskItemId) GetChains × (Bool × Act)))
      (s s' : State Bool String Round (Option TaskItemId) GetChains),
      tr.map Prod.snd = ((true, .send) :: roundOf false solanaTask).reverse ∧
      exec (step twoChains) (system twoChains fun _ => none) (labelsOf true tr) = some s' ∧
      s'.shown true = s.shown true := by
  obtain ⟨tr, s, hr, hok, htr⟩ := exists_run_of_exec (step twoChains) (ReadsOwn true)
    (system twoChains fun _ => none) ((true, .send) :: roundOf false solanaTask) (by decide)
  obtain ⟨s', hs', hiff⟩ := requests_same_alone_iff twoChains (fun _ => none) hr true
  exact ⟨tr, s, s', htr, hs', hiff.mpr hok⟩

/-- The first subscriber asks after a task of the other chain, where alone it would ask from the
beginning. -/
theorem foreign_cursor_reaches_request :
    ∃ s s' : State Bool String Round (Option TaskItemId) GetChains,
      exec (step twoChains) (system twoChains fun _ => none)
        (roundOf false solanaTask ++ [(true, Act.send)]) = some s ∧
      exec (step twoChains) (system twoChains fun _ => none)
        ((roundOf false solanaTask ++ [(true, Act.send)]).filter (·.1 = true)) = some s' ∧
      s.shown true = [getChainsRequest "ethereum" 100 (some solanaTask.id)] ∧
      s'.shown true = [getChainsRequest "ethereum" 100 none] ∧ s.shown true ≠ s'.shown true := by
  have hboth : (exec (step twoChains) (system twoChains fun _ => none)
      (roundOf false solanaTask ++ [(true, Act.send)])).map (·.shown true) =
        some [getChainsRequest "ethereum" 100 (some solanaTask.id)] := by decide
  have halone : (exec (step twoChains) (system twoChains fun _ => none)
      ((roundOf false solanaTask ++ [(true, Act.send)]).filter (·.1 = true))).map (·.shown true) =
        some [getChainsRequest "ethereum" 100 none] := by decide
  obtain ⟨s, hs, hshown⟩ := Option.map_eq_some_iff.1 hboth
  obtain ⟨s', hs', hshown'⟩ := Option.map_eq_some_iff.1 halone
  refine ⟨s, s', hs, hs', hshown, hshown', ?_⟩
  rw [hshown, hshown']
  decide

end Shared
end Subscriber
end RelayerCore
