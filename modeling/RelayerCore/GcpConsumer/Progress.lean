import RelayerCore.GcpConsumer.Model

/-!
# Extending the deadline of a message

`GcpMessage::ack` with `Progress` doubles the stored deadline and asks Pub/Sub for it.  The doubled
value stays stored when the request fails, and nothing stops it at the largest deadline Pub/Sub
grants, so a history of calls is valid only as long as no request fails.
-/

namespace RelayerCore
namespace GcpConsumer

open Machine

/-- The largest deadline Pub/Sub grants, in seconds. -/
def maxAckDeadlineSecs : ℤ := 600

/-- The answer of Pub/Sub to `modify_ack_deadline`: it refuses too large a deadline, and the request
may fail otherwise. -/
def modifyAckDeadline (fails : Bool) (secs : ℤ) : Bool := !fails && decide (secs ≤ maxAckDeadlineSecs)

/-- One call of `ack(Progress)`. -/
structure ProgressCall where
  lastGranted : ℤ
  held : ℤ
  requested : ℤ
  ok : Bool
  holds : ℤ
  deriving DecidableEq

/-- `GcpMessage::ack` with `Progress`, on a message that holds the deadline `held`: the deadline is
stored before the request is sent. -/
def ackProgress (fails : Bool) (lastGranted held : ℤ) : ProgressCall where
  lastGranted := lastGranted
  held := held
  requested := extendDeadline held
  ok := modifyAckDeadline fails (extendDeadline held)
  holds := extendDeadline held

/-- What Pub/Sub granted last, after a call. -/
def ProgressCall.granted (call : ProgressCall) : ℤ :=
  if call.ok then call.requested else call.lastGranted

/-- The calls made on one message, one for each entry of `fails`. -/
def progressCalls : List Bool → (lastGranted held : ℤ) → List ProgressCall
  | [], _, _ => []
  | fails :: rest, lastGranted, held =>
    let call := ackProgress fails lastGranted held
    call :: progressCalls rest call.granted call.holds

/-- A call asks for a deadline that is positive, not shorter than the last granted one and not too
large, and stores nothing when it fails. -/
structure ProgressCall.Valid (call : ProgressCall) : Prop where
  positive : 0 < call.requested
  longer : call.lastGranted ≤ call.requested
  accepted : call.requested ≤ maxAckDeadlineSecs
  unchanged : call.ok = false → call.holds = call.held

/-! ### One call -/

section Call

variable {held lastGranted : ℤ} {fails : Bool}

theorem extendDeadline_of_le (hpos : 0 < held) (hle : held < 2 ^ 30) :
    extendDeadline held = held * 2 := by
  apply if_pos
  constructor <;> omega

/-- A deadline never shrinks. -/
theorem le_extendDeadline (hpos : 0 < held) : held ≤ extendDeadline held := by
  unfold extendDeadline
  split <;> omega

/-- A call on a message whose deadline was granted is valid exactly when the request does not fail
and the double is not too large. -/
theorem valid_ackProgress_iff (hpos : 0 < held) (hle : held ≤ maxAckDeadlineSecs) :
    (ackProgress fails held held).Valid ↔ fails = false ∧ held * 2 ≤ maxAckDeadlineSecs := by
  have hlt : held < 2 ^ 30 := hle.trans_lt (by decide)
  have hextend := extendDeadline_of_le hpos hlt
  constructor
  · rintro ⟨-, -, haccepted, hunchanged⟩
    have hdouble : held * 2 ≤ maxAckDeadlineSecs := by
      rw [← hextend]
      exact haccepted
    refine ⟨?_, hdouble⟩
    by_contra hfails
    have hfails' : fails = true := Bool.eq_true_of_not_eq_false hfails
    subst hfails'
    -- the failed call holds the double
    have hheld : extendDeadline held = held := hunchanged rfl
    omega
  · rintro ⟨rfl, hdouble⟩
    have hok : modifyAckDeadline false (extendDeadline held) = true := by
      rw [hextend]
      exact decide_eq_true hdouble
    refine ⟨?_, ?_, ?_, fun hfalse => ?_⟩
    · show 0 < extendDeadline held
      omega
    · show held ≤ extendDeadline held
      omega
    · show extendDeadline held ≤ maxAckDeadlineSecs
      omega
    · exact absurd (hok.symm.trans hfalse) Bool.true_eq_false.mp

end Call

/-! ### A history of calls -/

section History

variable {held lastGranted : ℤ} {fails : List Bool}

/-- Whatever fails, the deadlines asked for are positive and not shorter than the last granted
one. -/
theorem progressCalls_longer (hpos : 0 < held) (hlast : lastGranted ≤ held) :
    ∀ call ∈ progressCalls fails lastGranted held,
      0 < call.requested ∧ call.lastGranted ≤ call.requested := by
  induction fails generalizing held lastGranted with
  | nil => exact fun call hcall => by cases hcall
  | cons fails rest ih =>
    have hgrow := le_extendDeadline hpos
    intro call hcall
    rcases List.mem_cons.mp hcall with rfl | hcall
    · exact ⟨hpos.trans_le hgrow, hlast.trans hgrow⟩
    · refine ih (hpos.trans_le hgrow) ?_ call hcall
      unfold ProgressCall.granted
      split_ifs
      · exact le_refl _
      · exact hlast.trans hgrow

theorem valid_calls_iff (hpos : 0 < held) (hle : held ≤ maxAckDeadlineSecs) :
    (∀ call ∈ progressCalls fails held held, call.Valid) ↔
      (∀ fail ∈ fails, fail = false) ∧ held * 2 ^ fails.length ≤ maxAckDeadlineSecs := by
  induction fails generalizing held with
  | nil => simpa [progressCalls] using hle
  | cons fail rest ih =>
    have hlt : held < 2 ^ 30 := hle.trans_lt (by decide)
    have hpow : held * 2 ^ (fail :: rest).length = held * 2 * 2 ^ rest.length := by
      rw [List.length_cons, pow_succ']
      ring
    have hgrow : held * 2 ≤ held * 2 * 2 ^ rest.length :=
      le_mul_of_one_le_right (by omega) (one_le_pow₀ (by decide))
    rw [progressCalls, List.forall_mem_cons, List.forall_mem_cons, hpow]
    by_cases hcall : fail = false ∧ held * 2 ≤ maxAckDeadlineSecs
    · -- the call is granted, and the next one starts from the double
      obtain ⟨rfl, hdouble⟩ := hcall
      have hextend := extendDeadline_of_le hpos hlt
      have hgranted : (ackProgress false held held).granted = held * 2 := by
        have hok : (ackProgress false held held).ok = true := by
          rw [← hextend] at hdouble
          exact decide_eq_true hdouble
        rw [ProgressCall.granted, if_pos hok]
        exact hextend
      have hholds : (ackProgress false held held).holds = held * 2 := hextend
      rw [hgranted, hholds, ih (by omega) hdouble, valid_ackProgress_iff hpos hle]
      simp [hdouble]
    · rw [valid_ackProgress_iff hpos hle]
      refine iff_of_false (fun h => hcall h.1) ?_
      rintro ⟨⟨hfail, -⟩, hbound⟩
      exact hcall ⟨hfail, hgrow.trans hbound⟩

/-- From a deadline that Pub/Sub grants, every call of a history is valid exactly when no request
fails and all the doublings stay within ten minutes. -/
theorem progress_valid_iff {ackDeadlineSecs : ℤ} (hpos : 1 ≤ ackDeadlineSecs)
    (hle : ackDeadlineSecs ≤ 600) (fails : List Bool) :
    (∀ call ∈ progressCalls fails ackDeadlineSecs ackDeadlineSecs, call.Valid) ↔
      (∀ fail ∈ fails, fail = false) ∧ ackDeadlineSecs * 2 ^ fails.length ≤ 600 :=
  valid_calls_iff (by omega) hle

theorem progress_valid_ten : (progressCalls [false, false] 10 10).length = 2 ∧
    ∀ call ∈ progressCalls [false, false] 10 10, call.Valid :=
  ⟨rfl, (progress_valid_iff (by decide) (by decide) [false, false]).mpr (by decide)⟩

/-- Ten seconds, extended six times: the sixth request, for 640 seconds, is refused, and the message
holds 640 instead of 320. -/
theorem sixth_progress_refused :
    ¬ ∀ call ∈ progressCalls [false, false, false, false, false, false] 10 10, call.Valid := by
  intro h
  have hcall := h ⟨320, 320, 640, false, 640⟩ (by decide)
  exact absurd hcall.accepted (by decide)

end History

end GcpConsumer
end RelayerCore
