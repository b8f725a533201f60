import RelayerCore.AmplifierApi.Client
import RelayerCore.Lib.Saturating

/-!
# The health check of the Amplifier API (`relayer-amplifier-api-integration/src/healthcheck.rs`)

At every tick the API is asked for its health.  Answers with an error status are counted, and the
component shuts down after `invalid_healthchecks_before_shutdown` of them in a row; a request that
cannot be executed shuts it down at once.
-/

namespace RelayerCore
namespace Healthcheck

open Saturating

/-- `AmplifierResponse::ok`: `error_for_status` refuses the statuses 4xx and 5xx. -/
def ok (response : AmplifierResponse) : Except AmplifierApiError Unit :=
  if 400 ≤ response.status ∧ response.status < 600 then .error .reqwest else .ok ()

/-- `usize::MAX`. -/
abbrev usizeMax : ℕ := 2 ^ 64 - 1

inductive HealthcheckError
  | request (err : AmplifierApiError)
  /-- "cannot reach amplifier API" -/
  | cannotReach
  deriving DecidableEq

/-- One health check: `build_request(..)?.execute().await?.ok().is_ok()`. -/
def healthcheckSucceeded : Exchange → Except AmplifierApiError Bool
  | .notBuilt err => .error err
  | .notSent err => .error err
  | .answered response => .ok (ok response).toBool

/-- The loop body: the counter after a tick, or the error that `process_healthcheck` returns. -/
def tick (invalidHealthchecksBeforeShutdown : UInt64) (healthcheckCurrentFailures : ℕ)
    (exchange : Exchange) : Except HealthcheckError ℕ :=
  match healthcheckSucceeded exchange with
  | .error err => .error (.request err)
  | .ok true => .ok 0
  | .ok false =>
    let failures := sat usizeMax (healthcheckCurrentFailures + 1)
    if failures ≥ invalidHealthchecksBeforeShutdown.toNat then .error .cannotReach
    else .ok failures

/-- The loop up to the tick `k`: its counter, or the error returned before. -/
def processHealthcheck (n : UInt64) (exchanges : ℕ → Exchange) : ℕ → Except HealthcheckError ℕ
  | 0 => .ok 0
  | k + 1 => (processHealthcheck n exchanges k).bind fun failures => tick n failures (exchanges k)

/-- `process_healthcheck` returns an error at the tick `k`. -/
def ReturnsAt (n : UInt64) (exchanges : ℕ → Exchange) (k : ℕ) : Prop :=
  ∃ failures, processHealthcheck n exchanges k = .ok failures ∧
    ∃ err, tick n failures (exchanges k) = .error err

/-- The request was not executed. -/
def Unreachable (exchange : Exchange) : Prop := ∃ err, healthcheckSucceeded exchange = .error err

/-- The check failed: no answer, or an error status. -/
def Failed (exchange : Exchange) : Prop := healthcheckSucceeded exchange ≠ .ok true

instance : DecidablePred Failed := fun exchange => by
  unfold Failed
  infer_instance

/-- The last `max 1 n` checks up to the tick `k` failed. -/
def AllFailed (n : UInt64) (exchanges : ℕ → Exchange) (k : ℕ) : Prop :=
  max 1 n.toNat ≤ k + 1 ∧ ∀ j ≤ k, k + 1 - max 1 n.toNat ≤ j → Failed (exchanges j)

/-- `k` is the first tick with the property `P`. -/
def First (P : ℕ → Prop) (k : ℕ) : Prop := P k ∧ ∀ j < k, ¬ P j

/-- The loop gives up exactly after `max 1 n` failed checks in a row. -/
def GivesUpInTime (n : UInt64) (exchanges : ℕ → Exchange) : Prop :=
  ∀ k, ReturnsAt n exchanges k ↔ First (AllFailed n exchanges) k

/-! ### The counter -/

/-- The number of failed checks in a row before the tick `k`. -/
def streak (exchanges : ℕ → Exchange) : ℕ → ℕ
  | 0 => 0
  | k + 1 => if Failed (exchanges k) then streak exchanges k + 1 else 0

section Streak

variable {n : UInt64} {exchanges : ℕ → Exchange} {k m : ℕ}

theorem le_streak_iff : m ≤ streak exchanges k ↔
    m ≤ k ∧ ∀ j < k, k - m ≤ j → Failed (exchanges j) := by
  induction k generalizing m with
  | zero =>
    show m ≤ 0 ↔ _
    simp
  | succ k ih =>
    unfold streak
    by_cases hfailed : Failed (exchanges k)
    · rw [if_pos hfailed]
      cases m with
      | zero => exact iff_of_true (Nat.zero_le _) ⟨Nat.zero_le _, fun j hj hle => by omega⟩
      | succ m =>
        rw [Nat.succ_le_succ_iff, ih, Nat.succ_le_succ_iff, Nat.add_sub_add_right]
        refine and_congr_right fun _ => ⟨fun h j hj hle => ?_, fun h j hj => h j (by omega)⟩
        rcases Nat.lt_succ_iff_lt_or_eq.mp hj with hlt | rfl
        · exact h j hlt hle
        · exact hfailed
    · rw [if_neg hfailed]
      constructor
      · intro hm
        have hm0 : m = 0 := Nat.le_zero.mp hm
        subst hm0
        exact ⟨Nat.zero_le _, fun j hj hle => by omega⟩
      · rintro ⟨hm, h⟩
        by_contra hpos
        exact hfailed (h k (Nat.lt_succ_self k) (by omega))

theorem allFailed_iff_le_streak :
    AllFailed n exchanges k ↔ max 1 n.toNat ≤ streak exchanges (k + 1) := by
  rw [le_streak_iff]
  refine and_congr_right fun _ => forall_congr' fun j => ?_
  rw [Nat.lt_succ_iff]

/-- A tick ends the loop: the request is not executed, or enough checks have failed. -/
def Stops (n : UInt64) (exchanges : ℕ → Exchange) (k : ℕ) : Prop :=
  AllFailed n exchanges k ∨ Unreachable (exchanges k)

/-- The step lemma: from the right counter, a tick ends the loop or leaves the right counter. -/
theorem tick_streak (hlt : streak exchanges k < max 1 n.toNat) :
    (Stops n exchanges k → ∃ err, tick n (streak exchanges k) (exchanges k) = .error err) ∧
    (¬ Stops n exchanges k →
      tick n (streak exchanges k) (exchanges k) = .ok (streak exchanges (k + 1))) := by
  have hn : n.toNat ≤ usizeMax := Nat.le_pred_of_lt n.toNat_lt
  have hone : 1 ≤ usizeMax := by decide
  have hsat : sat usizeMax (streak exchanges k + 1) = streak exchanges k + 1 :=
    sat_of_le (by omega)
  unfold Stops
  rw [allFailed_iff_le_streak, streak]
  unfold tick Unreachable
  cases hresult : healthcheckSucceeded (exchanges k) with
  | error err => simp
  | ok succeeded =>
    cases succeeded with
    | true =>
      have hfailed : ¬ Failed (exchanges k) := fun h => h hresult
      rw [if_neg hfailed]
      simp
    | false =>
      have hfailed : Failed (exchanges k) := by
        unfold Failed
        rw [hresult]
        simp
      rw [if_pos hfailed]
      dsimp only
      rw [hsat]
      by_cases hge : n.toNat ≤ streak exchanges k + 1
      · have hmax : max 1 n.toNat ≤ streak exchanges k + 1 := by omega
        rw [if_pos hge]
        exact ⟨fun _ => ⟨_, rfl⟩, fun h => absurd (Or.inl hmax) h⟩
      · have hmax : ¬ max 1 n.toNat ≤ streak exchanges k + 1 := by omega
        rw [if_neg hge]
        refine ⟨?_, fun _ => rfl⟩
        rintro (h | ⟨err, herr⟩)
        · exact absurd h hmax
        · cases herr

/-- The run lemma: as long as no tick ends the loop, its counter is the number of failures in a
row; afterwards it has returned. -/
theorem processHealthcheck_eq : ∀ k,
    ((∀ j < k, ¬ Stops n exchanges j) →
      processHealthcheck n exchanges k = .ok (streak exchanges k) ∧
        streak exchanges k < max 1 n.toNat) ∧
    ((∃ j < k, Stops n exchanges j) → ∃ err, processHealthcheck n exchanges k = .error err) := by
  intro k
  induction k with
  | zero =>
    refine ⟨fun _ => ⟨rfl, ?_⟩, ?_⟩
    · show 0 < max 1 n.toNat
      omega
    · rintro ⟨j, hj, -⟩
      omega
  | succ k ih =>
    rw [processHealthcheck]
    by_cases hearlier : ∃ j < k, Stops n exchanges j
    · obtain ⟨err, herr⟩ := ih.2 hearlier
      rw [herr]
      obtain ⟨j, hj, hstops⟩ := hearlier
      exact ⟨fun h => absurd hstops (h j (by omega)), fun _ => ⟨err, rfl⟩⟩
    · have hnone : ∀ j < k, ¬ Stops n exchanges j := by simpa using hearlier
      obtain ⟨hrun, hlt⟩ := ih.1 hnone
      have htick := tick_streak hlt
      rw [hrun]
      show (_ → tick n (streak exchanges k) (exchanges k) = _ ∧ _) ∧
        (_ → ∃ err, tick n (streak exchanges k) (exchanges k) = _)
      by_cases hstops : Stops n exchanges k
      · exact ⟨fun h => absurd hstops (h k (Nat.lt_succ_self k)), fun _ => htick.1 hstops⟩
      · refine ⟨fun _ => ⟨htick.2 hstops, ?_⟩, ?_⟩
        · have hno : ¬ AllFailed n exchanges k := fun h => hstops (Or.inl h)
          rw [allFailed_iff_le_streak] at hno
          omega
        · rintro ⟨j, hj, h⟩
          rcases Nat.lt_succ_iff_lt_or_eq.mp hj with hlt' | rfl
          · exact absurd h (hnone j hlt')
          · exact absurd h hstops

/-- The loop returns at the first tick that ends it. -/
theorem returnsAt_iff : ReturnsAt n exchanges k ↔ First (Stops n exchanges) k := by
  have hrun := @processHealthcheck_eq n exchanges k
  unfold ReturnsAt First
  by_cases hearlier : ∃ j < k, Stops n exchanges j
  · obtain ⟨err, herr⟩ := hrun.2 hearlier
    obtain ⟨j, hj, hstops⟩ := hearlier
    rw [herr]
    refine iff_of_false ?_ fun h => h.2 j hj hstops
    rintro ⟨failures, h, -⟩
    cases h
  · have hnone : ∀ j < k, ¬ Stops n exchanges j := by simpa using hearlier
    obtain ⟨hok, hlt⟩ := hrun.1 hnone
    have htick := tick_streak hlt
    rw [hok, and_iff_left hnone]
    constructor
    · rintro ⟨failures, h, err, herr⟩
      cases h
      by_contra hstops
      rw [htick.2 hstops] at herr
      cases herr
    · exact fun hstops => ⟨_, rfl, htick.1 hstops⟩

end Streak

/-! ### When the loop gives up -/

/-- The loop gives up in time exactly when no request stays unexecuted before `max 1 n` checks in a
row have failed. -/
theorem gives_up_in_time_iff (n : UInt64) (exchanges : ℕ → Exchange) :
    GivesUpInTime n exchanges ↔
      ∀ k, Unreachable (exchanges k) → ∃ j ≤ k, AllFailed n exchanges j := by
  unfold GivesUpInTime
  simp only [returnsAt_iff]
  constructor
  · intro h k hunreachable
    classical
    have hstops : ∃ k, Stops n exchanges k := ⟨k, Or.inr hunreachable⟩
    have hfirst : First (Stops n exchanges) (Nat.find hstops) :=
      ⟨Nat.find_spec hstops, fun j hj => Nat.find_min hstops hj⟩
    exact ⟨_, Nat.find_min' hstops (Or.inr hunreachable), ((h _).mp hfirst).1⟩
  · intro h k
    constructor
    · rintro ⟨hstops, hnone⟩
      refine ⟨?_, fun j hj hall => hnone j hj (Or.inl hall)⟩
      rcases hstops with hall | hunreachable
      · exact hall
      · obtain ⟨j, hj, hall⟩ := h k hunreachable
        rcases Nat.lt_or_eq_of_le hj with hlt | rfl
        · exact absurd (Or.inl hall) (hnone j hlt)
        · exact hall
    · rintro ⟨hall, hnone⟩
      refine ⟨Or.inl hall, fun j hj hstops => ?_⟩
      rcases hstops with hall' | hunreachable
      · exact hnone j hj hall'
      · obtain ⟨i, hi, hall'⟩ := h j hunreachable
        exact hnone i (by omega) hall'

/-- Five checks may fail, and the first request does not reach the API. -/
theorem first_unreachable_shuts_down :
    ¬ GivesUpInTime 5 fun _ => .notSent .reqwestWithMiddleware := by
  intro h
  have hreturns : ReturnsAt 5 (fun _ => .notSent .reqwestWithMiddleware) 0 :=
    ⟨0, rfl, .request .reqwestWithMiddleware, rfl⟩
  have hall := ((h 0).mp hreturns).1.1
  exact absurd hall (by decide)

end Healthcheck
end RelayerCore
