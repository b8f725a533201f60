import RelayerCore.AmplifierApi.Client
import RelayerCore.Application.Worker
import RelayerCore.Lib.Fair

/-!
# The ingester process on Pub/Sub (`amplifier-ingester/src/main.rs`,
`amplifier-ingester/src/lib.rs`, `bin-util/src/health_check.rs`)

The worker calls `ingest` at every tick.  While the read task of the consumer runs, such a call gets
to its stream; the stream ends once the senders of the channel are gone and the messages are done.
`Subscription::receive` drops the senders before the read task ends, if neither panics, so that
calls may return `Ok` in between; after the read task has ended no further call gets to a stream.
The probes of the health check server ask the consumer first and the API second.

The messages are only counted here.  The metrics are left out.
-/

namespace RelayerCore
namespace Application
namespace GcpIngester

open Machine

/-! ### The probes -/

/-- An answer of the health check server, with the value of its field `status`. -/
structure Response where
  code : ℕ
  status : String
  deriving DecidableEq

def handleHealthz (health : Bool) : Response :=
  if health then ⟨200, "HEALTHY"⟩ else ⟨503, "UNHEALTHY"⟩

def handleReadyz (health : Bool) : Response :=
  if health then ⟨200, "READY"⟩ else ⟨503, "UNREADY"⟩

inductive Route
  | healthz
  | readyz
  deriving DecidableEq

def Route.handle : Route → Bool → Response
  | .healthz => handleHealthz
  | .readyz => handleReadyz

inductive HealthError
  | consumerReadTaskExited
  | request (err : AmplifierApiError)
  deriving DecidableEq

/-- `GcpConsumer::check_health`: the read task has not finished. -/
def consumerCheckHealth (reading : Bool) : Except HealthError Unit :=
  if reading then .ok () else .error .consumerReadTaskExited

/-- `Ingester::check_health`; the status of an answer is not looked at. -/
def checkHealth (reading : Bool) (exchange : Exchange) : Except HealthError Unit := do
  consumerCheckHealth reading
  match exchange with
  | .notBuilt err => .error (.request err)
  | .notSent err => .error (.request err)
  | .answered _ => .ok ()

/-! ### The process -/

/-- `reading`: the read task has not finished; `senders`: some sender of the channel is left;
`stream`: `ingest` is at its stream, with that many messages in flight. -/
structure State where
  reading : Bool
  senders : Bool
  queued : ℕ
  stream : Option ℕ
  app : Application.State
  responses : List (Route × Response)

def init : State :=
  { reading := true
    senders := true
    queued := 0
    stream := none
    app := Application.init
    responses := [] }

inductive Action
  | forward
  | readTaskEnds
  | sendersDrop
  | tick
  | receive
  | itemDone
  | streamEnds
  | app (a : Application.Action)
  | probe (route : Route) (exchange : Exchange)
  deriving DecidableEq

/-- The worker task goes on. -/
def State.Working (s : State) : Prop := s.app.process = .running ∧ s.app.worker = .looping

instance (s : State) : Decidable s.Working := inferInstanceAs (Decidable (_ ∧ _))

section Step

variable (config : Config) (concurrentQueueItems : ℕ)

def inApp (s : State) (a : Application.Action) : Option State :=
  (runIngester config s.app a).map fun app => { s with app }

/-- `ingest` is called at a tick: it fails, or gets to its stream. -/
def tick (s : State) : Option State :=
  match s.stream with
  | none =>
    if s.reading then if s.Working then some { s with stream := some 0 } else none
    else inApp config s (.work false)
  | some _ => none

/-- `for_each_concurrent` takes a message from the channel. -/
def receive (s : State) : Option State :=
  match s.stream with
  | some n =>
    if s.Working ∧ 0 < s.queued ∧ (concurrentQueueItems = 0 ∨ n < concurrentQueueItems) then
      some { s with queued := s.queued - 1, stream := some (n + 1) }
    else none
  | none => none

def itemDone (s : State) : Option State :=
  match s.stream with
  | some (n + 1) => if s.Working then some { s with stream := some n } else none
  | _ => none

/-- The channel is closed and empty and all messages are done: `ingest` returns `Ok`. -/
def streamEnds (s : State) : Option State :=
  match s.stream with
  | some 0 =>
    if s.queued = 0 ∧ s.senders = false then
      (inApp config s (.work true)).map fun s => { s with stream := none }
    else none
  | _ => none

def step (s : State) : Action → Option State
  | .forward => if s.senders then some { s with queued := s.queued + 1 } else none
  | .readTaskEnds => if s.reading then some { s with reading := false } else none
  | .sendersDrop =>
    -- inside `receive`, or after a panic of the read task in the tasks it leaves behind
    if s.senders then some { s with senders := false } else none
  | .tick => tick config s
  | .receive => receive concurrentQueueItems s
  | .itemDone => itemDone s
  | .streamEnds => streamEnds config s
  | .app (.work _) => none
  | .app a =>
    (inApp config s a).map fun s =>
      -- the cancellation drops `ingest` with its stream
      if s.app.worker = .looping then s else { s with stream := none }
  | .probe route exchange =>
    if s.app.process = .running ∧ s.app.health = .serving then
      some { s with
        responses := (route, route.handle (checkHealth s.reading exchange).toBool) :: s.responses }
    else none

end Step

/-! ### What a step can do -/

variable {config : Config} {concurrentQueueItems : ℕ} {s s' : State} {a : Action}

/-- The steps, case by case; `Application.runWorker` takes those of the worker's calls and of the
rest of the process. -/
inductive Moves (config : Config) (concurrentQueueItems : ℕ) (s : State) : Action → State → Prop
  | forward (hsend : s.senders = true) :
      Moves config concurrentQueueItems s .forward { s with queued := s.queued + 1 }
  | readTaskEnds (hread : s.reading = true) :
      Moves config concurrentQueueItems s .readTaskEnds { s with reading := false }
  | sendersDrop (hsend : s.senders = true) :
      Moves config concurrentQueueItems s .sendersDrop { s with senders := false }
  | streams (hstream : s.stream = none) (hread : s.reading = true) (hwork : s.Working) :
      Moves config concurrentQueueItems s .tick { s with stream := some 0 }
  | fails (hstream : s.stream = none) (hread : s.reading = false) (app : Application.State)
      (happ : runWorker config.maxErrors s.app (.work false) = some app) :
      Moves config concurrentQueueItems s .tick { s with app }
  | receive (n : ℕ) (hstream : s.stream = some n) (hwork : s.Working) (hqueued : 0 < s.queued)
      (hlimit : concurrentQueueItems = 0 ∨ n < concurrentQueueItems) :
      Moves config concurrentQueueItems s .receive
        { s with queued := s.queued - 1, stream := some (n + 1) }
  | itemDone (n : ℕ) (hstream : s.stream = some (n + 1)) (hwork : s.Working) :
      Moves config concurrentQueueItems s .itemDone { s with stream := some n }
  | streamEnds (hstream : s.stream = some 0) (hqueued : s.queued = 0) (hsend : s.senders = false)
      (app : Application.State) (happ : runWorker config.maxErrors s.app (.work true) = some app) :
      Moves config concurrentQueueItems s .streamEnds { s with app, stream := none }
  | app (a : Application.Action) (hother : ∀ ok, a ≠ .work ok) (app : Application.State)
      (happ : runWorker config.maxErrors s.app a = some app) :
      Moves config concurrentQueueItems s (.app a)
        { s with app, stream := if app.worker = .looping then s.stream else none }
  | probe (route : Route) (exchange : Exchange) :
      Moves config concurrentQueueItems s (.probe route exchange)
        { s with responses := (route, route.handle (checkHealth s.reading exchange).toBool) ::
            s.responses }

theorem inApp_eq_some {b : Application.Action} (h : inApp config s b = some s') :
    ∃ app, runWorker config.maxErrors s.app b = some app ∧ s' = { s with app } := by
  obtain ⟨app, happ, rfl⟩ := Option.map_eq_some_iff.1 h
  exact ⟨app, happ, rfl⟩

theorem moves_of_app {b : Application.Action}
    (hs : step config concurrentQueueItems s (.app b) = some s') :
    Moves config concurrentQueueItems s (.app b) s' := by
  have hother : ∀ ok, b ≠ .work ok := by
    rintro ok rfl
    cases hs
  have hs : (inApp config s b).map (fun s =>
      if s.app.worker = .looping then s else { s with stream := none }) = some s' := by
    cases b with
    | work ok => exact absurd rfl (hother ok)
    | cancel | workPanics | observeCancel | healthStops | healthFails | join => exact hs
  obtain ⟨t, ht, rfl⟩ := Option.map_eq_some_iff.1 hs
  obtain ⟨app, happ, rfl⟩ := inApp_eq_some ht
  convert @Moves.app config concurrentQueueItems s b hother app happ using 1
  by_cases hw : app.worker = .looping <;> simp [hw]

theorem moves_of_tick (hs : tick config s = some s') :
    Moves config concurrentQueueItems s .tick s' := by
  unfold tick at hs
  split at hs
  · rename_i hstream
    split_ifs at hs with hread hwork
    · cases hs
      exact .streams hstream hread hwork
    · obtain ⟨app, happ, rfl⟩ := inApp_eq_some hs
      exact .fails hstream (by simpa using hread) app happ
  · cases hs

theorem moves_of_step (hs : step config concurrentQueueItems s a = some s') :
    Moves config concurrentQueueItems s a s' := by
  cases a with
  | forward =>
    obtain ⟨hsend, hs⟩ := Option.ite_none_right_eq_some.1 hs
    cases hs
    exact .forward hsend
  | readTaskEnds =>
    obtain ⟨hread, hs⟩ := Option.ite_none_right_eq_some.1 hs
    cases hs
    exact .readTaskEnds hread
  | sendersDrop =>
    obtain ⟨hsend, hs⟩ := Option.ite_none_right_eq_some.1 hs
    cases hs
    exact .sendersDrop hsend
  | tick => exact moves_of_tick hs
  | receive =>
    simp only [step, receive] at hs
    split at hs
    · rename_i n hstream
      obtain ⟨⟨hwork, hqueued, hlimit⟩, hs⟩ := Option.ite_none_right_eq_some.1 hs
      cases hs
      exact .receive n hstream hwork hqueued hlimit
    · cases hs
  | itemDone =>
    simp only [step, itemDone] at hs
    split at hs
    · rename_i n hstream
      obtain ⟨hwork, hs⟩ := Option.ite_none_right_eq_some.1 hs
      cases hs
      exact .itemDone n hstream hwork
    · cases hs
  | streamEnds =>
    simp only [step, streamEnds] at hs
    split at hs
    · rename_i hstream
      obtain ⟨⟨hqueued, hsend⟩, hs⟩ := Option.ite_none_right_eq_some.1 hs
      obtain ⟨t, ht, rfl⟩ := Option.map_eq_some_iff.1 hs
      obtain ⟨app, happ, rfl⟩ := inApp_eq_some ht
      exact .streamEnds hstream hqueued hsend app happ
    · cases hs
  | app b => exact moves_of_app hs
  | probe route exchange =>
    obtain ⟨-, hs⟩ := Option.ite_none_right_eq_some.1 hs
    cases hs
    exact .probe route exchange

/-! ### What the calls return -/

/-- Failures after successes, the latest first. -/
def Tail (outcomes : List Bool) : Prop :=
  ∃ k j, outcomes = List.replicate k false ++ List.replicate j true

structure Inv (config : Config) (concurrentQueueItems : ℕ) (s : State) : Prop where
  app : Application.Inv config s.app
  bound : failures s.app.outcomes ≤ config.threshold
  ended : s.app.process = .ended → s.app.worker ≠ .looping
  streaming : s.stream ≠ none → s.app.worker = .looping
  success : true ∈ s.app.outcomes → s.senders = false ∧ s.queued = 0
  failure : false ∈ s.app.outcomes → s.reading = false ∧ s.stream = none
  tail : Tail s.app.outcomes
  limit : ∀ n ∈ s.stream, concurrentQueueItems = 0 ∨ n ≤ concurrentQueueItems

theorem inv_init : Inv config concurrentQueueItems init where
  app := Application.inv_init
  bound := Nat.zero_le _
  ended h := by cases h
  streaming h := absurd rfl h
  success h := by cases h
  failure h := by cases h
  tail := ⟨0, 0, rfl⟩
  limit _ h := by cases h

section App

variable {t t' : Application.State} {b : Application.Action} {ok : Bool}

theorem runWorker_work (hs : runWorker config.maxErrors t (.work ok) = some t') :
    t.process = .running ∧ t.worker = .looping ∧ t' = t.afterWork config.maxErrors ok := by
  unfold runWorker at hs
  split at hs
  · rename_i hp
    obtain ⟨hw, hs⟩ := Option.ite_none_right_eq_some.1 hs
    cases hs
    exact ⟨hp, hw, rfl⟩
  · cases hs

theorem outcomes_afterWork : (t.afterWork config.maxErrors ok).outcomes = ok :: t.outcomes := by
  cases ok <;> rfl

theorem process_afterWork : (t.afterWork config.maxErrors ok).process = t.process := by
  cases ok <;> rfl

theorem outcomes_of_other (hother : ∀ ok, b ≠ .work ok)
    (hs : runWorker config.maxErrors t b = some t') : t'.outcomes = t.outcomes := by
  rcases Application.step_cases hs with ⟨ok, hb, -, -⟩ | ⟨-, -, rfl⟩ | ⟨-, -, hout, -, -⟩
  · exact absurd hb (hother ok)
  · rfl
  · exact hout

theorem ended_of_other (hother : ∀ ok, b ≠ .work ok)
    (hs : runWorker config.maxErrors t b = some t') (hended : t'.process = .ended) :
    t'.worker ≠ .looping := by
  unfold runWorker at hs
  split at hs
  · rename_i hp
    cases b with
    | work ok => exact absurd rfl (hother ok)
    | cancel =>
      cases hs
      rw [hp] at hended
      cases hended
    | observeCancel =>
      obtain ⟨-, hs⟩ := Option.ite_none_right_eq_some.1 hs
      cases hs
      simp
    | join =>
      obtain ⟨⟨hw, -⟩, hs⟩ := Option.ite_none_right_eq_some.1 hs
      cases hs
      exact hw
    | workPanics | healthStops | healthFails =>
      obtain ⟨-, hs⟩ := Option.ite_none_right_eq_some.1 hs
      cases hs
      simp [hp] at hended
  · cases hs

end App

/-- A call of `ingest` fails. -/
theorem inv_fails (h : Inv config concurrentQueueItems s) (hstream : s.stream = none)
    (hread : s.reading = false) {app : Application.State}
    (happ : runWorker config.maxErrors s.app (.work false) = some app) :
    Inv config concurrentQueueItems { s with app } := by
  have hinv := Application.inv_step h.app happ
  obtain ⟨hp, hw, rfl⟩ := runWorker_work happ
  have hbelow : failures s.app.outcomes < config.threshold := h.app.below (by simp [hw])
  refine ⟨hinv, ?_, fun hended => ?_, fun hne => absurd hstream hne, fun hok => ?_,
    fun _ => ⟨hread, hstream⟩, ?_, h.limit⟩
  · dsimp only
    rw [outcomes_afterWork, failures_err]
    omega
  · dsimp only at hended
    rw [process_afterWork, hp] at hended
    cases hended
  · dsimp only at hok
    rw [outcomes_afterWork] at hok
    exact h.success (List.mem_of_ne_of_mem (by decide) hok)
  · obtain ⟨k, j, hk⟩ := h.tail
    refine ⟨k + 1, j, ?_⟩
    dsimp only
    rw [outcomes_afterWork, hk]
    rfl

/-- A call of `ingest` comes to the end of its stream. -/
theorem inv_streamEnds (h : Inv config concurrentQueueItems s) (hstream : s.stream = some 0)
    (hqueued : s.queued = 0) (hsend : s.senders = false) {app : Application.State}
    (happ : runWorker config.maxErrors s.app (.work true) = some app) :
    Inv config concurrentQueueItems { s with app, stream := none } := by
  have hinv := Application.inv_step h.app happ
  have hno : false ∉ s.app.outcomes := by
    intro hmem
    rw [(h.failure hmem).2] at hstream
    cases hstream
  obtain ⟨hp, hw, rfl⟩ := runWorker_work happ
  refine ⟨hinv, ?_, fun hended => ?_, fun hne => absurd rfl hne, fun _ => ⟨hsend, hqueued⟩,
    fun hmem => ?_, ?_, fun n hn => (by cases hn)⟩
  · dsimp only
    rw [outcomes_afterWork, failures_ok]
    exact Nat.zero_le _
  · dsimp only at hended
    rw [process_afterWork, hp] at hended
    cases hended
  · dsimp only at hmem
    rw [outcomes_afterWork] at hmem
    exact absurd (List.mem_of_ne_of_mem (by decide) hmem) hno
  · obtain ⟨k, j, hk⟩ := h.tail
    dsimp only
    rw [outcomes_afterWork]
    cases k with
    | zero => exact ⟨0, j + 1, by rw [hk]; rfl⟩
    | succ k =>
      refine absurd ?_ hno
      rw [hk]
      exact List.mem_append_left _ (List.mem_replicate.2 ⟨Nat.succ_ne_zero k, rfl⟩)

theorem inv_step (h : Inv config concurrentQueueItems s)
    (hs : step config concurrentQueueItems s a = some s') :
    Inv config concurrentQueueItems s' := by
  cases moves_of_step hs with
  | forward hsend =>
    refine ⟨h.app, h.bound, h.ended, h.streaming, fun hok => ?_, h.failure, h.tail, h.limit⟩
    rw [(h.success hok).1] at hsend
    cases hsend
  | readTaskEnds hread =>
    exact ⟨h.app, h.bound, h.ended, h.streaming, h.success, fun hmem => ⟨rfl, (h.failure hmem).2⟩,
      h.tail, h.limit⟩
  | sendersDrop hsend =>
    exact ⟨h.app, h.bound, h.ended, h.streaming, fun hok => ⟨rfl, (h.success hok).2⟩, h.failure,
      h.tail, h.limit⟩
  | streams hstream hread hwork =>
    refine ⟨h.app, h.bound, h.ended, fun _ => hwork.2, h.success, fun hmem => ?_, h.tail, ?_⟩
    · rw [(h.failure hmem).1] at hread
      cases hread
    · rintro n ⟨⟩
      exact Or.inr (Nat.zero_le _)
  | fails hstream hread app happ => exact inv_fails h hstream hread happ
  | receive n hstream hwork hqueued hlimit =>
    refine ⟨h.app, h.bound, h.ended, fun _ => hwork.2, fun hok => ?_, fun hmem => ?_, h.tail, ?_⟩
    · rw [(h.success hok).2] at hqueued
      exact absurd hqueued (lt_irrefl 0)
    · rw [(h.failure hmem).2] at hstream
      cases hstream
    · rintro m ⟨⟩
      exact hlimit.imp_right fun hlt => hlt
  | itemDone n hstream hwork =>
    refine ⟨h.app, h.bound, h.ended, fun _ => hwork.2, h.success, fun hmem => ?_, h.tail, ?_⟩
    · rw [(h.failure hmem).2] at hstream
      cases hstream
    · rintro m ⟨⟩
      exact (h.limit (n + 1) hstream).imp_right fun hle => by omega
  | streamEnds hstream hqueued hsend app happ => exact inv_streamEnds h hstream hqueued hsend happ
  | app b hother app happ =>
    have hout := outcomes_of_other hother happ
    refine ⟨Application.inv_step h.app happ, ?_, ended_of_other hother happ, fun hne => ?_, ?_, ?_,
      ?_, ?_⟩
    · rw [hout]
      exact h.bound
    · by_contra hw
      exact hne (if_neg hw)
    · rw [hout]
      exact h.success
    · rw [hout]
      intro hmem
      obtain ⟨hread, hstream⟩ := h.failure hmem
      exact ⟨hread, by dsimp only; rw [hstream, ite_self]⟩
    · rw [hout]
      exact h.tail
    · intro n hn
      dsimp only at hn
      split_ifs at hn
      · exact h.limit n hn
      · cases hn
  | probe route exchange =>
    exact ⟨h.app, h.bound, h.ended, h.streaming, h.success, h.failure, h.tail, h.limit⟩

theorem inv_of_reach (h : Reach (ofFn (step config concurrentQueueItems)) init s) :
    Inv config concurrentQueueItems s :=
  h.invariant inv_init fun _ _ _ => inv_step

/-! ### The failures of a consumer that has stopped reading -/

/-- What the calls of `ingest` have returned so far, and where that has brought the worker. -/
structure Accounted (config : Config) (concurrentQueueItems : ℕ) (s : State) : Prop where
  /-- A call fails only after the read task. -/
  failure : false ∈ s.app.outcomes → s.reading = false
  /-- A call returns `Ok` only after the last sender, and with an empty channel. -/
  success : true ∈ s.app.outcomes → s.senders = false ∧ s.queued = 0
  tail : ∃ k ≤ config.threshold,
    (∃ j, s.app.outcomes = List.replicate k false ++ List.replicate j true) ∧
      (s.app.worker = .gaveUp ↔ k = config.threshold)
  /-- The limit 0 stands for none. -/
  limit : ∀ n ∈ s.stream, concurrentQueueItems = 0 ∨ n ≤ concurrentQueueItems

theorem failures_replicate (k : ℕ) (outcomes : List Bool) :
    failures (List.replicate k false ++ outcomes) = k + failures outcomes := by
  induction k with
  | zero => simp
  | succ k ih =>
    rw [List.replicate_succ, List.cons_append, failures_err, ih]
    omega

theorem failures_tail (k j : ℕ) :
    failures (List.replicate k false ++ List.replicate j true) = k := by
  rw [failures_replicate]
  cases j with
  | zero => rfl
  | succ j =>
    rw [List.replicate_succ, failures_ok]
    rfl

theorem Inv.accounted (h : Inv config concurrentQueueItems s) :
    Accounted config concurrentQueueItems s := by
  obtain ⟨k, j, hk⟩ := h.tail
  have hfail : failures s.app.outcomes = k := by rw [hk, failures_tail]
  refine ⟨fun hmem => (h.failure hmem).1, h.success,
    ⟨k, hfail ▸ h.bound, ⟨j, hk⟩, fun hg => ?_, fun heq => ?_⟩, h.limit⟩
  · exact le_antisymm (hfail ▸ h.bound) (hfail ▸ h.app.above hg)
  · by_contra hno
    have hlt := h.app.below hno
    omega

theorem unread_step (h : s.reading = false) (hs : step config concurrentQueueItems s a = some s') :
    s'.reading = false := by
  cases moves_of_step hs with
  | readTaskEnds => rfl
  | forward | sendersDrop | streams | fails | receive | itemDone | streamEnds | app | probe =>
    exact h

/-- From now on every probe is answered with 503. -/
def Unavailable (before : List (Route × Response)) (s : State) : Prop :=
  s.reading = false ∧ ∃ new, s.responses = new ++ before ∧ ∀ r ∈ new, r.2.code = 503

theorem unavailable_step {before : List (Route × Response)} (h : Unavailable before s)
    (hs : step config concurrentQueueItems s a = some s') : Unavailable before s' := by
  obtain ⟨hread, new, hnew, hall⟩ := h
  refine ⟨unread_step hread hs, ?_⟩
  cases moves_of_step hs with
  | probe route exchange =>
    refine ⟨_ :: new, congrArg (List.cons _) hnew, List.forall_mem_cons.2 ⟨?_, hall⟩⟩
    rw [hread]
    cases route <;> rfl
  | forward | readTaskEnds | sendersDrop | streams | fails | receive | itemDone | streamEnds
  | app => exact ⟨new, hnew, hall⟩

/-- **`ingest` fails only once the read task has ended**, and returns `Ok` only once the senders
are gone; the failures come last, the worker gives up with the one that reaches the threshold, and
from the end of the read task on no probe is answered with success. -/
theorem ingest_fails_only_unread
    (h : Reach (ofFn (step config concurrentQueueItems)) init s) :
    Accounted config concurrentQueueItems s ∧
      (s.reading = false → ∀ t, Reach (ofFn (step config concurrentQueueItems)) s t →
        Unavailable s.responses t) :=
  ⟨(inv_of_reach h).accounted, fun hread _ ht =>
    ht.invariant ⟨hread, [], rfl, by simp⟩ fun _ _ _ => unavailable_step⟩

/-- A message is handled, two calls return before the read task ends, and the third one fails. -/
def readThenFail : List Action :=
  [.tick, .forward, .receive, .itemDone, .sendersDrop, .streamEnds, .tick, .readTaskEnds,
    .streamEnds, .tick, .probe .healthz (.answered ⟨200, some []⟩)]

/-- The theorem on that run. -/
theorem ingest_fails_only_unread_once :
    ∃ s, s.app.outcomes = [false, true, true] ∧ Accounted ⟨1⟩ 1 s ∧
      (s.reading = false → ∀ t, Reach (ofFn (step ⟨1⟩ 1)) s t → Unavailable s.responses t) := by
  obtain ⟨s, hs, hp⟩ := exists_reach_of_exec (step ⟨1⟩ 1) init readThenFail
    (fun s => s.app.outcomes == [false, true, true] &&
      s.responses == [(.healthz, ⟨503, "UNHEALTHY"⟩)]) (by decide)
  simp only [Bool.and_eq_true, beq_iff_eq] at hp
  exact ⟨s, hp.1, ingest_fails_only_unread hs⟩

/-! ### The worker does not outlive the read task -/

/-- The steps the worker waits for: those of the consumer, of the calls and of its own. -/
inductive Helper
  | senders
  | receive
  | item
  | stream
  | tick

def Helper.labels : Helper → Set Action
  | .senders => {.sendersDrop}
  | .receive => {.receive}
  | .item => {.itemDone}
  | .stream => {.streamEnds}
  | .tick => {.tick}

/-- The Pub/Sub client has to drop the senders once the read task has ended. -/
def Helper.Due : Helper → State → Prop
  | .senders, s => s.reading = false
  | _, _ => True

/-- The worker is out of its loop, or the process is over. -/
def Over (s : State) : Prop := ¬ s.Working

/-- What is left to be done: the messages of the stream, and the failures up to the threshold. -/
def rank (config : Config) (s : State) : ℕ :=
  match s.stream with
  | some n => config.threshold + 2 * s.queued + n + 1
  | none => config.threshold - failures s.app.outcomes

def helper (s : State) : Helper :=
  match s.stream with
  | none => .tick
  | some 0 => if s.queued = 0 then .stream else .receive
  | some (_ + 1) => .item

/-- Once the read task has ended its senders go, whatever else happens. -/
theorem ranking_senders (config : Config) (concurrentQueueItems : ℕ) :
    Ranking (ofFn (step config concurrentQueueItems)) Helper.labels (fun s => s.reading = false)
      (fun s => s.senders = false) (fun _ => 0) (fun _ => .senders) where
  enabled s _ hsend :=
    ⟨.sendersDrop, rfl, _, if_pos (by simpa using hsend)⟩
  step s a s' hread hsend hs := by
    cases moves_of_step hs with
    | sendersDrop => exact Or.inl rfl
    | readTaskEnds hr => exact absurd hr (by simp [hread])
    | streams hstream hr => exact absurd hr (by simp [hread])
    | forward | fails | receive | itemDone | streamEnds | app | probe =>
      exact Or.inr ⟨hread, Or.inr ⟨rfl, rfl, by simp [Helper.labels]⟩⟩

theorem enabled_helper (hread : s.reading = false) (hsend : s.senders = false)
    (hwork : s.Working) :
    Enabled (ofFn (step config concurrentQueueItems)) (helper s).labels s := by
  have hcall : ∀ ok, runWorker config.maxErrors s.app (.work ok) =
      some (s.app.afterWork config.maxErrors ok) := by
    intro ok
    simp [runWorker, hwork.1, hwork.2]
  unfold helper
  split
  · rename_i hstream
    refine ⟨.tick, rfl, { s with app := s.app.afterWork config.maxErrors false }, ?_⟩
    simp [ofFn, step, tick, inApp, runIngester, hstream, hread, hcall]
  · rename_i hstream
    split_ifs with hqueued
    · refine ⟨.streamEnds, rfl,
        { s with app := s.app.afterWork config.maxErrors true, stream := none }, ?_⟩
      simp [ofFn, step, streamEnds, inApp, runIngester, hstream, hqueued, hsend, hcall]
    · refine ⟨.receive, rfl, { s with queued := s.queued - 1, stream := some 1 }, ?_⟩
      have hlimit : concurrentQueueItems = 0 ∨ 0 < concurrentQueueItems := Nat.eq_zero_or_pos _
      simp [ofFn, step, receive, hstream, hwork, Nat.pos_of_ne_zero hqueued, hlimit]
  · rename_i n hstream
    exact ⟨.itemDone, rfl, { s with stream := some n },
      by simp [ofFn, step, itemDone, hstream, hwork]⟩

/-- Without senders every step of a call brings the worker closer to its end. -/
theorem ranking (config : Config) (concurrentQueueItems : ℕ) :
    Ranking (ofFn (step config concurrentQueueItems)) Helper.labels
      (fun s => Inv config concurrentQueueItems s ∧ s.reading = false ∧ s.senders = false) Over
      (rank config) helper where
  enabled s h hover := enabled_helper h.2.1 h.2.2 (not_not.1 hover)
  step s a s' h hover hs := by
    obtain ⟨hinv, hread, hsend⟩ := h
    have hinv' := inv_step hinv hs
    have hwork : s.Working := not_not.1 hover
    cases moves_of_step hs with
    | forward hopen => simp [hsend] at hopen
    | readTaskEnds hr => simp [hread] at hr
    | sendersDrop hopen => simp [hsend] at hopen
    | streams hstream hr => simp [hread] at hr
    | fails hstream _ app happ =>
      refine Or.inr ⟨⟨hinv', hread, hsend⟩, Or.inl ?_⟩
      have hbelow : failures s.app.outcomes < config.threshold :=
        hinv.app.below (by simp [hwork.2])
      obtain ⟨-, -, rfl⟩ := runWorker_work happ
      simp only [rank, hstream, outcomes_afterWork, failures_err]
      omega
    | receive n hstream _ hqueued =>
      refine Or.inr ⟨⟨hinv', hread, hsend⟩, Or.inl ?_⟩
      simp only [rank, hstream]
      omega
    | itemDone n hstream =>
      refine Or.inr ⟨⟨hinv', hread, hsend⟩, Or.inl ?_⟩
      simp only [rank, hstream]
      omega
    | streamEnds hstream hqueued _ app happ =>
      refine Or.inr ⟨⟨hinv', hread, hsend⟩, Or.inl ?_⟩
      obtain ⟨-, -, rfl⟩ := runWorker_work happ
      simp only [rank, hstream, outcomes_afterWork, failures_ok]
      omega
    | app b hother app happ =>
      by_cases hw : app.worker = .looping
      · refine Or.inr ⟨⟨hinv', hread, hsend⟩, Or.inr ⟨?_, ?_, ?_⟩⟩
        · simp only [rank, hw, if_true, outcomes_of_other hother happ]
        · simp only [helper, hw, if_true]
        · generalize helper s = H
          cases H <;> simp [Helper.labels]
      · exact Or.inl fun hwork' => hw hwork'.2
    | probe route exchange =>
      refine Or.inr ⟨⟨hinv', hread, hsend⟩, Or.inr ⟨rfl, rfl, ?_⟩⟩
      generalize helper s = H
      cases H <;> simp [Helper.labels]

/-- A call that is at its stream comes to its end, unless the worker is stopped before. -/
def Drains (s : State) : Prop :=
  s.stream ≠ none ∨ true ∈ s.app.outcomes ∨ s.app.worker = .stopped

theorem drains_step (hinv : Inv config concurrentQueueItems s) (h : Drains s)
    (hs : step config concurrentQueueItems s a = some s') : Drains s' := by
  cases moves_of_step hs with
  | forward | readTaskEnds | sendersDrop | probe => exact h
  | streams | receive | itemDone => exact Or.inl (Option.some_ne_none _)
  | fails hstream hread app happ =>
    obtain ⟨-, hw, rfl⟩ := runWorker_work happ
    rcases h with hne | hok | hstopped
    · exact absurd hstream hne
    · refine Or.inr (Or.inl ?_)
      dsimp only
      rw [outcomes_afterWork]
      exact List.mem_cons_of_mem _ hok
    · rw [hw] at hstopped
      cases hstopped
  | streamEnds hstream hqueued hsend app happ =>
    obtain ⟨-, -, rfl⟩ := runWorker_work happ
    refine Or.inr (Or.inl ?_)
    dsimp only
    rw [outcomes_afterWork]
    exact List.mem_cons_self
  | app b hother app happ =>
    have hout := outcomes_of_other hother happ
    unfold Drains
    dsimp only
    rcases Application.step_cases happ with ⟨ok, hb, -, -⟩ | ⟨-, -, rfl⟩ | ⟨hw, -, -, -, -⟩
    · exact absurd hb (hother ok)
    · exact Or.inr (Or.inr rfl)
    · rw [hw, hout]
      rcases h with hne | hok | hstopped
      · rw [if_pos (hinv.streaming hne)]
        exact Or.inl hne
      · exact Or.inr (Or.inl hok)
      · exact Or.inr (Or.inr hstopped)

/-- The channel is closed and empty, and no message taken from it is left. -/
structure Drained (s : State) : Prop where
  senders : s.senders = false
  queued : s.queued = 0
  stream : s.stream = none

/-- A worker that has given up after a call that drains has drained the channel. -/
theorem drained_of_gaveUp (hinv : Inv config concurrentQueueItems s) (h : Drains s)
    (hw : s.app.worker = .gaveUp) : Drained s := by
  have hnone : s.stream = none := by
    by_contra hne
    exact absurd (hw.symm.trans (hinv.streaming hne)) (by decide)
  rcases h with hne | hok | hstopped
  · exact absurd hnone hne
  · obtain ⟨hsend, hqueued⟩ := hinv.success hok
    exact ⟨hsend, hqueued, hnone⟩
  · exact absurd (hw.symm.trans hstopped) (by decide)

/-- **The worker does not outlive the read task.**  In an execution that is fair to the Pub/Sub
client once the read task has ended, to the calls and to the ticks, the worker then gives up at the
threshold, unless the cancellation stops it or the process panics before; and if a call was at its
stream when the read task ended, it has emptied the channel before that. -/
theorem worker_ends_once_unread (ρ : Execution (ofFn (step config concurrentQueueItems)))
    (h0 : ρ.state 0 = init) (hfair : ∀ H : Helper, ρ.FairWhile H.Due H.labels) {n : ℕ}
    (hread : (ρ.state n).reading = false) :
    ∃ m ≥ n, ((ρ.state m).app.worker = .gaveUp ∧
        failures (ρ.state m).app.outcomes = config.threshold ∧
        ((ρ.state n).stream ≠ none → Drained (ρ.state m))) ∨
      (ρ.state m).app.worker = .stopped ∧ (ρ.state m).app.cancelled = true ∨
      (ρ.state m).app.process = .panicked := by
  have hinv : ∀ k, Inv config concurrentQueueItems (ρ.state k) :=
    fun k => inv_of_reach (h0 ▸ ρ.reach k)
  obtain ⟨k, hk, hsend⟩ := (ranking_senders config _).leadsTo_while ρ
    (fun _ hunread _ => hunread) hfair hread
  have hread' : (ρ.state k).reading = false :=
    ρ.stays (p := fun s => s.reading = false) (fun _ _ _ => unread_step) hk hread
  have hdue : ∀ s, Inv config concurrentQueueItems s ∧ s.reading = false ∧ s.senders = false →
      ¬ Over s → (helper s).Due s := by
    intro s hs _
    unfold helper
    split
    · trivial
    · split_ifs <;> trivial
    · trivial
  obtain ⟨m, hm, hover⟩ := (ranking config _).leadsTo_while ρ hdue hfair ⟨hinv k, hread', hsend⟩
  refine ⟨m, by omega, ?_⟩
  cases hw : (ρ.state m).app.worker with
  | gaveUp =>
    refine Or.inl ⟨rfl, le_antisymm (hinv m).bound ((hinv m).app.above hw), fun hstream => ?_⟩
    have hdrains : Inv config concurrentQueueItems (ρ.state m) ∧ Drains (ρ.state m) :=
      ρ.stays (p := fun s => Inv config concurrentQueueItems s ∧ Drains s)
        (fun _ _ _ h hs => ⟨inv_step h.1 hs, drains_step h.1 h.2 hs⟩) (n := n) (by omega)
        ⟨hinv n, Or.inl hstream⟩
    exact drained_of_gaveUp (hinv m) hdrains.2 hw
  | stopped => exact Or.inr (Or.inl ⟨rfl, (hinv m).app.stopped hw⟩)
  | looping =>
    refine Or.inr (Or.inr ?_)
    cases hp : (ρ.state m).app.process with
    | running => exact absurd ⟨hp, hw⟩ hover
    | ended => exact absurd hw ((hinv m).ended hp)
    | panicked => rfl

/-- The theorem on the run above, from the end of the read task on; after it nothing is left to be
done. -/
theorem worker_ends_once_unread_stops :
    ∃ ρ : Execution (ofFn (step ⟨1⟩ 1)), ∃ m ≥ 8, ρ.state 0 = init ∧ (ρ.state 8).stream = some 0 ∧
      ((ρ.state m).app.worker = .gaveUp ∧ failures (ρ.state m).app.outcomes = 1 ∧
          ((ρ.state 8).stream ≠ none → Drained (ρ.state m)) ∨
        (ρ.state m).app.worker = .stopped ∧ (ρ.state m).app.cancelled = true ∨
        (ρ.state m).app.process = .panicked) := by
  obtain ⟨s, hs, hp⟩ := Option.map_eq_some_iff.1
    (show (exec (step ⟨1⟩ 1) init readThenFail).map (fun s => !s.reading && !s.senders &&
      s.stream == none && s.app.worker == .gaveUp) = some true by decide)
  simp only [Bool.and_eq_true, beq_iff_eq, Bool.not_eq_true'] at hp
  obtain ⟨⟨⟨hread, hsend⟩, hstream⟩, hw⟩ := hp
  have hfair : ∀ H : Helper, (ofExec hs).FairWhile H.Due H.labels := by
    intro H
    refine (fairTo_ofExec hs ?_).fairWhile
    cases H with
    | tick =>
      rintro a rfl
      simp only [step, tick, inApp, runIngester, runWorker, hread, hstream, hw]
      cases s.app.process <;> rfl
    | senders | receive | item | stream =>
      rintro a rfl
      simp [step, receive, itemDone, streamEnds, hsend, hstream]
  have hunread : ((ofExec hs).state 8).reading = false ∧
      ((ofExec hs).state 8).stream = some 0 := ⟨rfl, rfl⟩
  obtain ⟨m, hm, hends⟩ :=
    worker_ends_once_unread (ofExec hs) (ofExec_zero hs) hfair hunread.1
  exact ⟨ofExec hs, m, hm, ofExec_zero hs, hunread.2, hends⟩

end GcpIngester
end Application
end RelayerCore
