import RelayerCore.Lib.Body
import RelayerCore.Lib.Machine

/-!
# The Redis store and its counters (`infrastructure/src/gcp/kv_store.rs`, `gcp.rs`)

A `RedisClient` counts reads, writes and errors.  `ping`, `put` and `update` record an error in a
closure that runs when there is one; `get` records one in the argument of `map_err`, a block that
runs whatever Redis has answered.

What Redis answers is given with each call, and so are the conversions of the stored type.
-/

namespace RelayerCore

/-! ### Errors -/

/-- `redis::RedisError`, by its text. -/
structure RedisError where
  text : String
  deriving DecidableEq

/-- `std::io::Error`, by its text. -/
structure IoError where
  text : String
  deriving DecidableEq

/-- `tonic::Status`, by its text. -/
structure Status where
  text : String
  deriving DecidableEq

/-- The variants of `GcpError` that stores and publishers fail with. -/
inductive GcpError
  | publish (status : Status)
  | serialize (err : IoError)
  | redisPing (err : RedisError)
  | redisSerialize (value : String) (err : IoError)
  | redisSave (err : RedisError)
  | redisGet (err : RedisError)
  | redisDeserialize (value : String) (err : IoError)
  | noMsgToPublish
  deriving DecidableEq

/-- `hex::encode`. -/
def hexEncode (bytes : List UInt8) : String :=
  String.ofList <| bytes.flatMap fun b =>
    [Nat.digitChar (b.toNat / 16), Nat.digitChar (b.toNat % 16)]

/-! ### The store -/

/-- The conversions of a stored type: `borsh::to_vec`, `borsh::from_slice` and `Display`. -/
structure Stored (T : Type) where
  toVec : T → Except IoError (List UInt8)
  fromSlice : List UInt8 → Except IoError T
  toString : T → String

/-- What Redis answers to the commands of a call. -/
structure Redis where
  ping : Except RedisError Unit
  set : List UInt8 → Except RedisError Unit
  get : Except RedisError (Option (List UInt8))

structure WithRevision (T : Type) where
  value : T
  revision : UInt64
  deriving DecidableEq

namespace RedisClient

open Body Machine

/-- `Metrics`: what has been added to each counter. -/
structure Metrics where
  writes : ℕ
  reads : ℕ
  errorRaised : ℕ
  deriving DecidableEq

namespace Metrics

def new : Metrics := ⟨0, 0, 0⟩

def recordRead (self : Metrics) : Metrics := { self with reads := self.reads + 1 }

def recordWrite (self : Metrics) : Metrics := { self with writes := self.writes + 1 }

def recordError (self : Metrics) : Metrics := { self with errorRaised := self.errorRaised + 1 }

end Metrics

variable {T : Type} (stored : Stored T) (redis : Redis)

def ping : Effect Metrics (Except RedisError Unit) := call do
  recordErr Metrics.recordError redis.ping

def upsert (value : T) : Effect Metrics (Except GcpError Unit) := call do
  let bytes ← question ((stored.toVec value).mapError (.redisSerialize (stored.toString value)))
  question ((redis.set bytes).mapError .redisSave)
  act Metrics.recordWrite
  return .ok ()

def update (data : WithRevision T) : Effect Metrics (Except GcpError UInt64) := call do
  question (← recordErr Metrics.recordError (← perform (upsert stored redis data.value)))
  return .ok 0

def put (value : T) : Effect Metrics (Except GcpError UInt64) := call do
  question (← recordErr Metrics.recordError (← perform (upsert stored redis value)))
  return .ok 0

/-- The closure of `get`, with a question mark of its own. -/
def decodeValue (bytes : List UInt8) : Effect Metrics (Except GcpError (WithRevision T)) := call do
  let value ← question
    ((stored.fromSlice bytes).mapError (.redisDeserialize (hexEncode bytes)))
  act Metrics.recordRead
  return .ok ⟨value, 0⟩

/-- `Option::map` with the closure, and `transpose`. -/
def decodeOption : Option (List UInt8) →
    Effect Metrics (Except GcpError (Option (WithRevision T)))
  | none => fun metrics => (.ok none, metrics)
  | some bytes => (decodeValue stored bytes).map (Except.map some)

def get : Effect Metrics (Except GcpError (Option (WithRevision T))) := call do
  -- the argument of `map_err` is not a closure
  act Metrics.recordError
  let value ← question (redis.get.mapError .redisGet)
  recordErr Metrics.recordError (← perform (decodeOption stored value))

/-! ### Calls -/

inductive Call (T : Type)
  | ping
  | put (value : T)
  | update (data : WithRevision T)
  | get

/-- What a call returned. -/
inductive Outcome (T : Type)
  | ping (res : Except RedisError Unit)
  | put (res : Except GcpError UInt64)
  | update (res : Except GcpError UInt64)
  | get (res : Except GcpError (Option (WithRevision T)))

namespace Outcome

/-- The call returned `Err`. -/
def failed : Outcome T → Bool
  | .ping res => isErr res
  | .put res | .update res => isErr res
  | .get res => isErr res

/-- `get` returned a value. -/
def gotValue : Outcome T → Bool
  | .get (.ok (some _)) => true
  | _ => false

/-- `put` or `update` succeeded. -/
def wrote : Outcome T → Bool
  | .put res | .update res => !isErr res
  | _ => false

end Outcome

def exec : Call T → Effect Metrics (Outcome T)
  | .ping => (ping redis).map .ping
  | .put value => (put stored redis value).map .put
  | .update data => (update stored redis data).map .update
  | .get => (get stored redis).map .get

/-- The counters have gone up by what happened. -/
structure Counted (before after : Metrics) (outcome : Outcome T) : Prop where
  errors : after.errorRaised = before.errorRaised + outcome.failed.toNat
  reads : after.reads = before.reads + outcome.gotValue.toNat
  writes : after.writes = before.writes + outcome.wrote.toNat

/-! ### One call -/

section Call

variable {stored : Stored T} {redis : Redis} (s : Metrics)

theorem ping_eq : ping redis s =
    (redis.ping, if isErr redis.ping then s.recordError else s) := by
  unfold ping recordErr
  cases redis.ping <;> rfl

theorem upsert_eq (value : T) : upsert stored redis value s =
    match stored.toVec value with
    | .error err => (.error (.redisSerialize (stored.toString value) err), s)
    | .ok bytes =>
      match redis.set bytes with
      | .error err => (.error (.redisSave err), s)
      | .ok () => (.ok (), s.recordWrite) := by
  unfold upsert
  rw [call_question_mapError_bind]
  cases stored.toVec value with
  | error err => rfl
  | ok bytes =>
    dsimp only
    rw [call_question_mapError_bind]
    cases redis.set bytes <;> rfl

/-- The helper records the writes that succeed, and no errors. -/
theorem upsert_metrics (value : T) : (upsert stored redis value s).2 =
    if isErr (upsert stored redis value s).1 then s else s.recordWrite := by
  rw [upsert_eq]
  cases stored.toVec value with
  | error err => rfl
  | ok bytes => cases h : redis.set bytes <;> simp [h]

/-- The value can be encoded, and Redis accepts it. -/
def Saved (stored : Stored T) (redis : Redis) (value : T) : Prop :=
  ∃ bytes, stored.toVec value = .ok bytes ∧ isErr (redis.set bytes) = false

theorem isErr_upsert (value : T) :
    isErr (upsert stored redis value s).1 = false ↔ Saved stored redis value := by
  rw [upsert_eq]
  unfold Saved
  cases stored.toVec value with
  | error err => simp
  | ok bytes => cases h : redis.set bytes <;> simp [h]

theorem put_eq (value : T) : put stored redis value s =
    ((upsert stored redis value s).1.map fun _ => 0,
      if isErr (upsert stored redis value s).1 then s.recordError else s.recordWrite) := by
  unfold put
  rw [call_perform_bind, upsert_metrics]
  cases (upsert stored redis value s).1 <;> rfl

theorem update_eq_put (data : WithRevision T) :
    update stored redis data = put stored redis data.value := rfl

theorem decodeValue_metrics (bytes : List UInt8) : (decodeValue stored bytes s).2 =
    if isErr (decodeValue stored bytes s).1 then s else s.recordRead := by
  unfold decodeValue
  rw [call_question_mapError_bind]
  cases stored.fromSlice bytes <;> rfl

/-- An error is recorded whatever Redis answers, and another one when the value cannot be
decoded. -/
theorem get_eq : get stored redis s =
    match redis.get with
    | .error err => (.error (.redisGet err), s.recordError)
    | .ok none => (.ok none, s.recordError)
    | .ok (some bytes) =>
      ((decodeValue stored bytes s.recordError).1.map some,
        if isErr (decodeValue stored bytes s.recordError).1 then s.recordError.recordError
        else s.recordError.recordRead) := by
  unfold get
  rw [call_act_bind, call_question_mapError_bind]
  cases redis.get with
  | error err => rfl
  | ok value =>
    cases value with
    | none => rfl
    | some bytes =>
      have hres : (decodeOption stored (some bytes) s.recordError).1 =
        (decodeValue stored bytes s.recordError).1.map some := rfl
      have hstate : (decodeOption stored (some bytes) s.recordError).2 =
        (decodeValue stored bytes s.recordError).2 := rfl
      dsimp only
      rw [call_perform_recordErr, hres, hstate, decodeValue_metrics]
      cases (decodeValue stored bytes s.recordError).1 <;> rfl

/-- The call is no `get` that Redis answers. -/
def Unanswered (redis : Redis) : Call T → Prop
  | .get => isErr redis.get = true
  | _ => True

theorem counted_put (value : T) : Counted s (put stored redis value s).2
    (.put (put stored redis value s).1 : Outcome T) := by
  rw [put_eq]
  cases (upsert stored redis value s).1 with
  | error err => exact ⟨rfl, rfl, rfl⟩
  | ok u => exact ⟨rfl, rfl, rfl⟩

/-- The counters go up by what happened in every call but a `get` that is answered. -/
theorem counted_exec_iff (call : Call T) :
    Counted s (exec stored redis call s).2 (exec stored redis call s).1 ↔
      Unanswered redis call := by
  cases call with
  | ping =>
    refine iff_of_true ?_ trivial
    show Counted s (ping redis s).2 (.ping (ping redis s).1 : Outcome T)
    rw [ping_eq]
    cases redis.ping <;> exact ⟨rfl, rfl, rfl⟩
  | put value => exact iff_of_true (counted_put s value) trivial
  | update data =>
    refine iff_of_true ?_ trivial
    show Counted s (update stored redis data s).2
      (.update (update stored redis data s).1 : Outcome T)
    rw [update_eq_put]
    obtain ⟨errors, reads, writes⟩ : Counted s (put stored redis data.value s).2
      (.put (put stored redis data.value s).1 : Outcome T) := counted_put s data.value
    exact ⟨errors, reads, writes⟩
  | get =>
    show Counted s (get stored redis s).2 (.get (get stored redis s).1 : Outcome T) ↔
      isErr redis.get = true
    rw [get_eq]
    cases redis.get with
    | error err => exact iff_of_true ⟨rfl, rfl, rfl⟩ rfl
    | ok value =>
      refine iff_of_false (fun h => ?_) (by simp)
      have herrors := h.errors
      cases value with
      | none =>
        -- nothing failed, and an error is recorded
        change s.errorRaised + 1 = s.errorRaised + 0 at herrors
        omega
      | some bytes =>
        dsimp only at herrors
        cases hres : (decodeValue stored bytes s.recordError).1 with
        | error err =>
          rw [hres] at herrors
          change s.errorRaised + 1 + 1 = s.errorRaised + 1 at herrors
          omega
        | ok value =>
          rw [hres] at herrors
          change s.errorRaised + 1 = s.errorRaised + 0 at herrors
          omega

end Call

/-! ### Runs -/

/-- The metrics after a call, with what Redis answers to it. -/
def step (stored : Stored T) (s : Metrics) (call : Call T × Redis) : Metrics :=
  (exec stored call.2 call.1 s).2

/-- In a run of calls, with any answers, the counters go up by what happens in every call exactly
when the commands of all its `get`s fail. -/
theorem counters_match_iff (stored : Stored T) (s : Metrics) (calls : List (Call T × Redis)) :
    Along (step stored)
        (fun s call => Counted s (step stored s call) (exec stored call.2 call.1 s).1) s calls ↔
      ∀ call ∈ calls, Unanswered call.2 call.1 := by
  have hstep : ∀ (s : Metrics) (call : Call T × Redis),
      Counted s (step stored s call) (exec stored call.2 call.1 s).1 ↔ Unanswered call.2 call.1 :=
    fun s call => counted_exec_iff s call.1
  exact (along_congr hstep s calls).trans (along_label s calls)

/-- A key that is absent. -/
def absent : Redis where
  ping := .ok ()
  set _ := .ok ()
  get := .ok none

/-- Bytes stored as they are. -/
def rawBytes : Stored (List UInt8) where
  toVec := .ok
  fromSlice := .ok
  toString := hexEncode

/-- A `get` of an absent key is no error, and counts as one. -/
theorem absent_value_counts_as_error :
    ¬ Along (step rawBytes) (fun s call =>
      Counted s (step rawBytes s call) (exec rawBytes call.2 call.1 s).1) .new [(.get, absent)] ∧
    (exec rawBytes absent .get .new).1 = .get (.ok none) ∧
    (exec rawBytes absent .get .new).2.errorRaised = 1 := by
  refine ⟨fun h => ?_, rfl, rfl⟩
  have herrors := h.1.errors
  change 0 + 1 = 0 + 0 at herrors
  omega

end RedisClient
end RelayerCore
