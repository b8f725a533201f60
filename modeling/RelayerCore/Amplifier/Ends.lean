import RelayerCore.Amplifier.Component
import RelayerCore.ToAmplifier.Ends

/-!
# Without clients the component returns

The publishing half ends when no client is left, and the component with it: a fair execution of the
component contains a fair execution of its publishing half, as long as the race goes on.
-/

namespace RelayerCore
namespace Amplifier

open Machine

variable {config : Config} {client : ToAmplifier.AmplifierApiClient} {s s' : State} {a : Action}

/-- The tasks of the publishing half are not overlooked. -/
def Prompt (s : State) : Action → Prop
  | .toAmplifier a => ToAmplifier.Prompt s.toAmplifier a
  | _ => True

instance (s : State) : (a : Action) → Decidable (Prompt s a)
  | .toAmplifier a => inferInstanceAs (Decidable (ToAmplifier.Prompt s.toAmplifier a))
  | .setUp .. | .healthcheck _ | .fromAmplifier _ => .isTrue trivial

/-- The set-up of the component, and the helpers of its publishing half. -/
inductive Helper
  | setUp
  | toAmplifier (H : ToAmplifier.Helper)

def Helper.labels : Helper → Set Action
  | .setUp => {a | ∃ made clock, a = .setUp made clock}
  | .toAmplifier H => {a | ∃ b ∈ H.labels, a = .toAmplifier b}

/-- The steps of the publishing half. -/
def Action.publishing : Action → Option ToAmplifier.Action
  | .toAmplifier a => some a
  | _ => none

/-- While the component runs, its publishing half is as it would be alone, and has not ended. -/
def Publishing (client : ToAmplifier.AmplifierApiClient) (chain : String) (s : State) : Prop :=
  s.phase.isGone = false →
    ToAmplifier.Inv client chain s.toAmplifier ∧ s.toAmplifier.phase ≠ .ended

/-- Only its own steps end the publishing half. -/
theorem phase_of_step {t t' : ToAmplifier.State} {a : ToAmplifier.Action}
    (ha : toAmplifierAllowed .starting a = true)
    (hs : ToAmplifier.step client config.chain t a = some t') : t'.phase = t.phase := by
  cases ToAmplifier.step_eq_some.1 hs with
  | send | close | execute | cancel => rfl
  | receive | pending | closed | collect | finish | wait => cases ha

theorem publishing_step (h : Publishing client config.chain s)
    (hs : step config client s a = some s') : Publishing client config.chain s' := by
  cases moves_of_step hs with
  | setUp phase hphase => exact fun _ => h (by rw [hphase]; rfl)
  | healthcheck failures hphase => exact h
  | listen a f hf => exact h
  | unhealthy err | published a t | notStarted a f =>
    intro hno
    cases hno
  | publish a t hallowed ht hon =>
    intro hno
    obtain ⟨hinv, hend⟩ := h hno
    refine ⟨ToAmplifier.inv_step hinv ht, ?_⟩
    have hon : ¬(s.phase = .racing ∧ t.phase = .ended) := hon
    show t.phase ≠ .ended
    cases hphase : s.phase with
    | racing => exact fun hended => hon ⟨hphase, hended⟩
    | starting =>
      rw [hphase] at hallowed
      rw [phase_of_step hallowed ht]
      exact hend
    | exited result | dropped => exact absurd hno (by simp [hphase, Phase.isGone])

theorem publishing_of_reach {past : FromAmplifier.State}
    (h : Reach (ofFn (step config client)) (new past) s) : Publishing client config.chain s :=
  h.invariant (p := Publishing client config.chain)
    (fun _ => ⟨ToAmplifier.inv_init, by simp [new, ToAmplifier.init]⟩)
    fun _ _ _ => publishing_step

/-- A channel that is closed stays closed. -/
theorem closed_step (h : s.toAmplifier.senders = false) (hs : step config client s a = some s') :
    s'.toAmplifier.senders = false := by
  have hclosed : ∀ a t, ToAmplifier.step client config.chain s.toAmplifier a = some t →
      t.senders = false := by
    intro a t ht
    cases ToAmplifier.step_eq_some.1 ht with
    | send command hopen => rw [h] at hopen; cases hopen
    | close => rfl
    | receive | pending | closed | collect | finish | wait | execute | cancel => exact h
  cases moves_of_step hs with
  | setUp | healthcheck | listen | unhealthy | notStarted => exact h
  | publish a t hallowed ht hon => exact hclosed a t ht
  | published a t hphase ht hended => exact hclosed a t ht

/-- A component that is racing races on until it returns. -/
theorem racing_step (h : s.phase = .racing) (hs : step config client s a = some s') :
    s'.phase = .racing ∨ s'.phase.isGone = true := by
  cases moves_of_step hs with
  | setUp phase hphase => rw [h] at hphase; cases hphase
  | healthcheck failures hphase => exact Or.inl h
  | publish a t hallowed ht hon => exact Or.inl h
  | listen a f hf => exact Or.inl h
  | unhealthy err | published a t | notStarted a f => exact Or.inr rfl

/-- Unless the component returns, a step of it is one of its publishing half or leaves that half as
it is. -/
theorem publishing_moves (hs : step config client s a = some s') (h : s'.phase.isGone = false) :
    (∀ b, a.publishing = some b →
      ToAmplifier.step client config.chain s.toAmplifier b = some s'.toAmplifier) ∧
      (a.publishing = none → s'.toAmplifier = s.toAmplifier) := by
  cases a with
  | setUp made clock =>
    obtain ⟨-, hs⟩ := Option.ite_none_right_eq_some.1 hs
    cases hs
    exact ⟨fun b hb => (by cases hb), fun _ => rfl⟩
  | healthcheck exchange =>
    obtain ⟨-, hs⟩ := Option.ite_none_right_eq_some.1 hs
    split at hs <;> cases hs
    · exact ⟨fun b hb => (by cases hb), fun _ => rfl⟩
    · cases h
  | toAmplifier a =>
    obtain ⟨-, hs⟩ := Option.ite_none_right_eq_some.1 hs
    obtain ⟨t, ht, rfl⟩ := Option.map_eq_some_iff.1 hs
    unfold State.publish at h ⊢
    split_ifs at h ⊢ with hend
    · cases h
    · refine ⟨fun b hb => ?_, fun hno => (by cases hno)⟩
      cases hb
      exact ht
  | fromAmplifier a =>
    obtain ⟨-, hs⟩ := Option.ite_none_right_eq_some.1 hs
    obtain ⟨f, hf, rfl⟩ := Option.map_eq_some_iff.1 hs
    refine ⟨fun b hb => (by cases hb), fun _ => ?_⟩
    unfold State.listen at h ⊢
    split
    · split_ifs at h ⊢
      · rfl
      · cases h
    · rfl

section Ends

variable {past : FromAmplifier.State}

theorem setUp_ne_starting (made : Except AmplifierApiError Unit) (clock : Bool) :
    setUp config made clock ≠ .starting := by
  have hcases : setUp config made clock = .racing ∨
      ∃ err, setUp config made clock = .exited (.error err) := setUp_cases made clock
  rcases hcases with hracing | ⟨err, herr⟩
  · simp [hracing]
  · simp [herr]

/-- A fair component that does not return gets to its race. -/
theorem exists_racing (ρ : Execution (when (ofFn (step config client)) Prompt))
    (hfair : ρ.FairTo Helper.setUp.labels) {n : ℕ}
    (hgoes : ∀ m ≥ n, (ρ.state m).phase.isGone = false) :
    ∃ k ≥ n, (ρ.state k).phase = .racing := by
  by_contra hno
  have hstarting : ∀ m ≥ n, (ρ.state m).phase = .starting := by
    intro m hm
    have hexit := hgoes m hm
    cases hphase : (ρ.state m).phase with
    | starting => rfl
    | racing => exact absurd ⟨m, hm, hphase⟩ hno
    | exited result | dropped => rw [hphase] at hexit; cases hexit
  obtain ⟨m, hm, a, ⟨made, clock, rfl⟩, ha⟩ := hfair n fun m hm =>
    ⟨.setUp (.ok ()) true, ⟨_, _, rfl⟩, _, trivial, if_pos (hstarting m hm)⟩
  obtain ⟨-, hs⟩ := ρ.moves m _ ha
  obtain ⟨-, hs⟩ := Option.ite_none_right_eq_some.1 hs
  have hsetUp : setUp config made clock = (ρ.state (m + 1)).phase :=
    congrArg State.phase (Option.some.inj hs)
  exact setUp_ne_starting made clock (hsetUp.trans (hstarting (m + 1) (by omega)))

theorem enabled_publishing (h : s.phase = .racing) (H : ToAmplifier.Helper)
    (henabled : Enabled (when (ofFn (ToAmplifier.step client config.chain)) ToAmplifier.Prompt)
      H.labels s.toAmplifier) :
    Enabled (when (ofFn (step config client)) Prompt) (Helper.toAmplifier H).labels s := by
  obtain ⟨b, hb, t, hprompt, ht⟩ := henabled
  have hallowed : toAmplifierAllowed s.phase b = true := by
    rw [h]
    cases b <;> rfl
  refine ⟨.toAmplifier b, ⟨b, hb, rfl⟩, s.publish t, hprompt, ?_⟩
  have ht : ToAmplifier.step client config.chain s.toAmplifier b = some t := ht
  simp only [ofFn, step, hallowed, if_true, ht, Option.map_some]

/-- **The component returns once no client is left**, in every fair execution. -/
theorem component_returns_once_closed (ρ : Execution (when (ofFn (step config client)) Prompt))
    (h0 : Reach (ofFn (step config client)) (new past) (ρ.state 0))
    (hfair : ∀ H : Helper, ρ.FairTo H.labels) {n : ℕ}
    (hclosed : (ρ.state n).toAmplifier.senders = false) :
    ∃ m ≥ n, (ρ.state m).phase.isExited = true := by
  by_contra hno
  have hreach : ∀ m, Reach (ofFn (step config client)) (new past) (ρ.state m) :=
    fun m => h0.trans (ρ.reach m).of_when
  have hgoes : ∀ m ≥ n, (ρ.state m).phase.isGone = false := by
    intro m hm
    cases hphase : (ρ.state m).phase with
    | starting | racing => rfl
    | exited result => exact absurd ⟨m, hm, by rw [hphase]; rfl⟩ hno
    | dropped => exact absurd hphase (phase_of_reach (hreach m))
  obtain ⟨k, hk, hracing⟩ := exists_racing ρ (hfair .setUp) hgoes
  have hraces : ∀ m ≥ k, (ρ.state m).phase = .racing := by
    intro m hm
    induction m, hm using Nat.le_induction with
    | base => exact hracing
    | succ m hm ih =>
      rcases ρ.next_eq_or m with heq | ⟨a, -, hs⟩
      · rw [heq]
        exact ih
      · rcases racing_step ih hs.2 with h | h
        · exact h
        · rw [hgoes (m + 1) (by omega)] at h
          cases h
  have hmoves : ∀ m a, (ρ.drop k).label m = some a → _ := fun m a ha =>
    publishing_moves ((ρ.drop k).moves m a ha).2 (hgoes (m + 1 + k) (by omega))
  let τ : Machine.Execution
      (when (ofFn (ToAmplifier.step client config.chain)) ToAmplifier.Prompt) :=
    (ρ.drop k).project State.toAmplifier Action.publishing
      (fun m a ha b hb => by
        refine ⟨?_, (hmoves m a ha).1 b hb⟩
        have hprompt := ((ρ.drop k).moves m a ha).1
        cases a with
        | toAmplifier b' => cases hb; exact hprompt
        | setUp | healthcheck | fromAmplifier => cases hb)
      fun m a ha hnone => (hmoves m a ha).2 hnone
  have hτfair : ∀ H : ToAmplifier.Helper, τ.FairTo H.labels := by
    intro H
    refine ((hfair (.toAmplifier H)).drop k).project
      (fun m henabled => enabled_publishing (hraces (m + k) (by omega)) H henabled) ?_
    rintro a ⟨b, hb, rfl⟩
    exact ⟨b, hb, rfl⟩
  have hsenders : (ρ.state k).toAmplifier.senders = false :=
    ρ.stays (p := fun s => s.toAmplifier.senders = false)
      (fun _ _ _ h hs => closed_step h hs.2) hk hclosed
  have hinv := (publishing_of_reach (hreach k) (hgoes k hk)).1
  have hzero : τ.state 0 = (ρ.state k).toAmplifier :=
    congrArg (fun m => (ρ.state m).toAmplifier) (Nat.zero_add k)
  rw [← hzero] at hsenders hinv
  obtain ⟨m, -, hend⟩ :=
    (ToAmplifier.ranking client config.chain).leadsTo τ hτfair ⟨hinv, hsenders⟩
  exact (publishing_of_reach (hreach (m + k)) (hgoes (m + k) (by omega))).2 hend

end Ends

end Amplifier
end RelayerCore
