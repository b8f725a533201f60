import RelayerCore.Lib.Saturating

/-!
# Retrying with back-off (`crates/retry`)

`RetryFn` retries one function, `RetryPairFn` tries two in turn, and `Builder` makes both from the
same parameters.  A function is given by what its calls return, one after the other.
-/

namespace RelayerCore
namespace Retry

open Saturating

/-! ### Time -/

/-- `core::time::Duration`: a whole number of nanoseconds, the seconds in an `u64`. -/
structure Duration where
  nanos : ℕ
  lt : nanos < 2 ^ 64 * 10 ^ 9
  deriving DecidableEq

instance : LinearOrder Duration :=
  LinearOrder.lift' Duration.nanos fun a b h => by
    cases a
    cases b
    simpa using h

/-- Whole milliseconds, as an `u128`. -/
def Duration.asMillis (d : Duration) : ℕ := d.nanos / 10 ^ 6

def Duration.fromMillis (ms : UInt64) : Duration where
  nanos := ms.toNat * 10 ^ 6
  lt := by
    have := ms.toNat_lt
    omega

def Duration.fromSecs (secs : UInt64) : Duration where
  nanos := secs.toNat * 10 ^ 9
  lt := by
    have := secs.toNat_lt
    omega

/-- `u64::MAX`. -/
abbrev u64Max : ℕ := 2 ^ 64 - 1

/-- `u128_to_u64_saturating`. -/
def saturating (value : ℕ) : UInt64 := UInt64.ofNat (sat u64Max value)

@[simp] theorem toNat_saturating (value : ℕ) : (saturating value).toNat = sat u64Max value := by
  have h : sat u64Max value ≤ 2 ^ 64 - 1 := sat_le
  have hlt : sat u64Max value < 2 ^ 64 := by omega
  exact UInt64.toNat_ofNat_of_lt hlt

@[simp] theorem saturating_toNat (a : UInt64) : saturating a.toNat = a := by
  have h : a.toNat ≤ u64Max := Nat.le_pred_of_lt a.toNat_lt
  apply UInt64.toNat_inj.mp
  rw [toNat_saturating, sat_of_le h]

theorem saturating_sat (value : ℕ) : saturating (sat u64Max value) = saturating value := by
  rw [← toNat_saturating, saturating_toNat]

def saturatingMul (a b : UInt64) : UInt64 := saturating (a.toNat * b.toNat)

@[simp] theorem toNat_saturatingMul (a b : UInt64) :
    (saturatingMul a b).toNat = mul u64Max a.toNat b.toNat := toNat_saturating _

/-- `NonZeroU64`. -/
structure NonZeroU64 where
  get : UInt64
  ne_zero : get ≠ 0

theorem NonZeroU64.pos (n : NonZeroU64) : 0 < n.get.toNat :=
  Nat.pos_of_ne_zero fun h => n.ne_zero (UInt64.toNat_inj.mp h)

/-! ### Outcomes -/

/-- Which errors are not recoverable, and which ask for a longer wait. -/
class Abortable (Err : Type) where
  abortable : Err → Bool := fun _ => false
  rateLimit : Err → Bool := fun _ => false

/-- An error that keeps the defaults. -/
instance : Abortable Unit := {}

inductive RetryError (Err : Type)
  | aborted (err : Err)
  | maxAttempts
  deriving DecidableEq

/-- What a retry does on the way: it waits, or calls a function. -/
inductive Act (F : Type)
  | sleep (duration : Duration)
  | call (function : F)
  deriving DecidableEq

/-- The wait of an act. -/
def Act.slept? {F : Type} : Act F → Option Duration
  | .sleep duration => some duration
  | .call _ => none

/-- Whether an act is a call. -/
def Act.isCall {F : Type} : Act F → Bool
  | .sleep _ => false
  | .call _ => true

def maxAttempts : ℕ := 20

def rateLimitWaitSecs : UInt64 := 10

/-! ### One function -/

section RetryFn

variable {T Err : Type} [Abortable Err]

/-- `function n` is what the call `n` returns, `backoff k` the `k`-th item of the iterator. -/
structure RetryFn (T Err : Type) where
  backoff : ℕ → Duration
  function : ℕ → Except Err T
  maxAttempts : ℕ
  rateLimitWait : Duration

def RetryFn.new (backoff : ℕ → Duration) (function : ℕ → Except Err T) : RetryFn T Err where
  backoff := backoff
  function := function
  maxAttempts := Retry.maxAttempts
  rateLimitWait := Duration.fromSecs rateLimitWaitSecs

/-- What `RetryFn.retry` did and returned. -/
structure RetryFn.Run (T Err : Type) where
  acts : List (Act Unit)
  result : Except (RetryError Err) T

/-- Put what was done before the rest of a run. -/
def RetryFn.Run.after (run : RetryFn.Run T Err) (acts : List (Act Unit)) : RetryFn.Run T Err :=
  { run with acts := acts ++ run.acts }

/-- The loop over the remaining delays, after `calls` calls. -/
def RetryFn.attempts (self : RetryFn T Err) : List Duration → ℕ → RetryFn.Run T Err
  | [], _ => ⟨[], .error .maxAttempts⟩
  | duration :: rest, calls =>
    match self.function calls with
    | .ok res => ⟨[.sleep duration, .call ()], .ok res⟩
    | .error err =>
      if Abortable.abortable err then
        ⟨[.sleep duration, .call ()], .error (.aborted err)⟩
      else if Abortable.rateLimit err then
        (self.attempts rest (calls + 1)).after
          [.sleep duration, .call (), .sleep self.rateLimitWait]
      else
        (self.attempts rest (calls + 1)).after [.sleep duration, .call ()]

def RetryFn.retry (self : RetryFn T Err) : RetryFn.Run T Err :=
  self.attempts ((List.range self.maxAttempts).map self.backoff) 0

end RetryFn

/-! ### The back-off of two alternating functions -/

inductive AlternationStep
  | first
  | second
  deriving DecidableEq

structure BackoffPairIterator where
  currentFirstPathDelayMs : UInt64
  currentSecondPathDelayMs : UInt64
  factor : NonZeroU64
  maxDelayMs : UInt64
  backoffPath : AlternationStep

structure Iteration where
  duration : Duration
  alterationStep : AlternationStep
  deriving DecidableEq

def BackoffPairIterator.new (initialDelay : Duration) (factor : NonZeroU64) (maxDelay : Duration) :
    BackoffPairIterator where
  currentFirstPathDelayMs := saturating initialDelay.asMillis
  currentSecondPathDelayMs := 0
  factor := factor
  maxDelayMs := saturating maxDelay.asMillis
  backoffPath := .first

/-- The delay `durationMs`, cut at the maximum. -/
def BackoffPairIterator.cap (self : BackoffPairIterator) (durationMs : UInt64) : Duration :=
  Duration.fromMillis (if durationMs > self.maxDelayMs then self.maxDelayMs else durationMs)

/-- One item, and the iterator after it; `jitter` is what the random factor makes of a delay. -/
def BackoffPairIterator.next (jitter : UInt64 → UInt64) (self : BackoffPairIterator) :
    Iteration × BackoffPairIterator :=
  match self.backoffPath with
  | .first =>
    (⟨self.cap self.currentFirstPathDelayMs, .first⟩,
      { self with
        backoffPath := .second
        currentFirstPathDelayMs :=
          jitter (saturatingMul self.currentFirstPathDelayMs self.factor.get) })
  | .second =>
    (⟨self.cap self.currentSecondPathDelayMs, .second⟩,
      { self with
        backoffPath := .first
        -- the second path is seeded from the delay of the first
        currentSecondPathDelayMs :=
          jitter (saturatingMul self.currentFirstPathDelayMs self.factor.get) })

/-- The first `n` items; the item `k` draws the jitter `jitter k`. -/
def BackoffPairIterator.take (jitter : ℕ → UInt64 → UInt64) (self : BackoffPairIterator) :
    ℕ → List Iteration
  | 0 => []
  | n + 1 =>
    (self.next (jitter 0)).1 ::
      BackoffPairIterator.take (fun k => jitter (k + 1)) (self.next (jitter 0)).2 n

/-! ### Two functions in turn -/

section RetryPairFn

variable {T Err : Type} [Abortable Err]

structure RetryPairFn (T Err : Type) where
  backoff : BackoffPairIterator
  firstFunction : ℕ → Except Err T
  secondFunction : ℕ → Except Err T
  maxAttempts : ℕ
  rateLimitWait : Duration

def RetryPairFn.new (backoff : BackoffPairIterator)
    (firstFunction secondFunction : ℕ → Except Err T) :
    RetryPairFn T Err where
  backoff := backoff
  firstFunction := firstFunction
  secondFunction := secondFunction
  maxAttempts := Retry.maxAttempts
  rateLimitWait := Duration.fromSecs rateLimitWaitSecs

/-- The local variables of the loop, and the number of calls made to each function. -/
structure Locals (Err : Type) where
  primaryFnAborted : Bool
  primaryFnRateLimitted : Bool
  secondaryFnAborted : Bool
  secondaryFnRateLimitted : Bool
  lastAbortErr : Option Err
  firstCalls : ℕ
  secondCalls : ℕ

def Locals.init : Locals Err := ⟨false, false, false, false, none, 0, 0⟩

/-- How the loop ends: it returns, or an `expect` fails. -/
inductive Outcome (T Err : Type)
  | returned (result : Except (RetryError Err) T)
  | panicked

/-- `Err(RetryError::Aborted(last_abort_err.expect("abort error")))`. -/
def abortedWith : Option Err → Outcome T Err
  | some err => .returned (.error (.aborted err))
  | none => .panicked

/-- Where a pass through the loop body leads. -/
inductive Flow (T Err : Type)
  | done (outcome : Outcome T Err)
  | goOn (locals : Locals Err)

structure Pass (T Err : Type) where
  acts : List (Act AlternationStep)
  flow : Flow T Err

/-- The arm of the match for the first function. -/
def RetryPairFn.firstArm (self : RetryPairFn T Err) (duration : Duration) (l : Locals Err) :
    Pass T Err :=
  if l.primaryFnAborted then
    ⟨[], if l.secondaryFnAborted then .done (abortedWith l.lastAbortErr) else .goOn l⟩
  else
    let wait := if l.primaryFnRateLimitted then self.rateLimitWait else duration
    let l' := { l with primaryFnRateLimitted := false, firstCalls := l.firstCalls + 1 }
    ⟨[.sleep wait, .call .first],
      match self.firstFunction l.firstCalls with
      | .ok res => .done (.returned (.ok res))
      | .error err =>
        if Abortable.abortable err then
          let l'' := { l' with primaryFnAborted := true, lastAbortErr := some err }
          if l.secondaryFnAborted then .done (abortedWith l''.lastAbortErr) else .goOn l''
        -- only the next wait differs
        else if Abortable.rateLimit err then .goOn { l' with primaryFnRateLimitted := true }
        else .goOn l'⟩

/-- The arm of the match for the second function. -/
def RetryPairFn.secondArm (self : RetryPairFn T Err) (duration : Duration) (l : Locals Err) :
    Pass T Err :=
  if l.secondaryFnAborted then
    ⟨[], if l.primaryFnAborted then .done (abortedWith l.lastAbortErr) else .goOn l⟩
  else
    let wait := if l.secondaryFnRateLimitted then self.rateLimitWait else duration
    let l' := { l with secondaryFnRateLimitted := false, secondCalls := l.secondCalls + 1 }
    ⟨[.sleep wait, .call .second],
      match self.secondFunction l.secondCalls with
      | .ok res => .done (.returned (.ok res))
      | .error err =>
        if Abortable.abortable err then
          let l'' := { l' with secondaryFnAborted := true, lastAbortErr := some err }
          if l.primaryFnAborted then .done (abortedWith l''.lastAbortErr) else .goOn l''
        else if Abortable.rateLimit err then .goOn { l' with secondaryFnRateLimitted := true }
        else .goOn l'⟩

def RetryPairFn.body (self : RetryPairFn T Err) (iteration : Iteration) (l : Locals Err) :
    Pass T Err :=
  match iteration.alterationStep with
  | .first => self.firstArm iteration.duration l
  | .second => self.secondArm iteration.duration l

/-- A slot that was reached: its iteration, the variables at its start, and what it did. -/
structure Slot (Err : Type) where
  iteration : Iteration
  locals : Locals Err
  acts : List (Act AlternationStep)

/-- What `RetryPairFn.retry` did in each slot it reached, and how it ended. -/
structure RetryPairFn.Run (T Err : Type) where
  slots : List (Slot Err)
  outcome : Outcome T Err

/-- The loop over the remaining iterations. -/
def RetryPairFn.loop (self : RetryPairFn T Err) :
    List Iteration → Locals Err → RetryPairFn.Run T Err
  | [], _ => ⟨[], .returned (.error .maxAttempts)⟩
  | iteration :: rest, l =>
    let pass := self.body iteration l
    match pass.flow with
    | .done outcome => ⟨[⟨iteration, l, pass.acts⟩], outcome⟩
    | .goOn l' =>
      let run := self.loop rest l'
      ⟨⟨iteration, l, pass.acts⟩ :: run.slots, run.outcome⟩

def RetryPairFn.retry (self : RetryPairFn T Err) (jitter : ℕ → UInt64 → UInt64) :
    RetryPairFn.Run T Err :=
  self.loop (self.backoff.take jitter self.maxAttempts) .init

end RetryPairFn

/-! ### The builder -/

structure Builder where
  initialDelay : Duration
  backoffFactor : NonZeroU64
  maxDelay : Duration

/-- The items of `ExponentialBackoff::from_millis(base).factor(factor).max_delay(max_delay)`, a
type of `tokio_retry`. -/
abbrev ExponentialBackoff :=
  (base factor : UInt64) → (maxDelay : Duration) → ℕ → Duration

/-- The items that `tokio_retry` documents: `factor * base ^ (k + 1)` milliseconds, saturating, cut
at the maximum. -/
def ExponentialBackoff.documented : ExponentialBackoff := fun base factor maxDelay k =>
  min maxDelay (Duration.fromMillis (saturating (factor.toNat * base.toNat ^ (k + 1))))

/-- The iterator behaves as documented. -/
def ExponentialBackoff.Documented (items : ExponentialBackoff) : Prop :=
  ∀ base factor maxDelay k,
    items base factor maxDelay k = ExponentialBackoff.documented base factor maxDelay k

section Builder

variable {T Err : Type} [Abortable Err]

def Builder.withRetry (self : Builder) (items : ExponentialBackoff)
    (function : ℕ → Except Err T) : RetryFn T Err :=
  RetryFn.new
    (items (saturating self.initialDelay.asMillis) self.backoffFactor.get self.maxDelay) function

def Builder.withRetryPair (self : Builder) (firstFunction secondFunction : ℕ → Except Err T) :
    RetryPairFn T Err :=
  RetryPairFn.new (.new self.initialDelay self.backoffFactor self.maxDelay)
    firstFunction secondFunction

end Builder

end Retry
end RelayerCore
