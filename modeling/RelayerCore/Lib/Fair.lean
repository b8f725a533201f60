import RelayerCore.Lib.Machine

/-!
# Fair executions

An execution of a machine goes on for ever: at every time a step is taken, or nothing happens.  It
is fair to a set of labels if these labels, once they stay enabled, are taken some time.

* `Execution`, `Enabled`, `FairTo`, and `FairWhile` for labels that are waited for in some states
  only;
* `Ranking`: a measure of the states that no step raises, and that the steps of a helper lower;
* `Ranking.leadsTo`: under fairness to its helpers a ranking leads to its goal, and so do rankings
  that lower a well-founded measure again and again (`leadsTo_of_measure`);
* `ofExec`: a finite run as an execution that stops for good;
* `ofCycle`: the execution that takes the same steps over and over.
-/

namespace Machine

variable {σ α ι : Type*}

/-- An infinite run, which may pause at any time. -/
structure Execution (T : σ → α → σ → Prop) where
  state : ℕ → σ
  label : ℕ → Option α
  moves : ∀ n a, label n = some a → T (state n) a (state (n + 1))
  pauses : ∀ n, label n = none → state (n + 1) = state n

/-- Some step with one of the labels can be taken. -/
def Enabled (T : σ → α → σ → Prop) (C : Set α) (s : σ) : Prop := ∃ a ∈ C, ∃ s', T s a s'

namespace Execution

variable {T : σ → α → σ → Prop}

/-- Weak fairness: labels that stay enabled are taken. -/
def FairTo (ρ : Execution T) (C : Set α) : Prop :=
  ∀ n, (∀ m ≥ n, Enabled T C (ρ.state m)) → ∃ m ≥ n, ∃ a ∈ C, ρ.label m = some a

/-- Fairness while labels are waited for: enabled and waited for without end, they are taken. -/
def FairWhile (ρ : Execution T) (due : σ → Prop) (C : Set α) : Prop :=
  ∀ n, (∀ m ≥ n, due (ρ.state m) ∧ Enabled T C (ρ.state m)) → ∃ m ≥ n, ∃ a ∈ C, ρ.label m = some a

theorem fairTo_iff {ρ : Execution T} {C : Set α} : ρ.FairTo C ↔ ρ.FairWhile (fun _ => True) C := by
  simp only [FairTo, FairWhile, true_and]

theorem FairTo.fairWhile {ρ : Execution T} {C : Set α} (h : ρ.FairTo C) {due : σ → Prop} :
    ρ.FairWhile due C :=
  fun n hn => h n fun m hm => (hn m hm).2

theorem next_eq_or (ρ : Execution T) (n : ℕ) :
    ρ.state (n + 1) = ρ.state n ∨ ∃ a, ρ.label n = some a ∧ T (ρ.state n) a (ρ.state (n + 1)) := by
  cases ha : ρ.label n with
  | none => exact Or.inl (ρ.pauses n ha)
  | some a => exact Or.inr ⟨a, rfl, ρ.moves n a ha⟩

theorem reach (ρ : Execution T) (n : ℕ) : Reach T (ρ.state 0) (ρ.state n) := by
  induction n with
  | zero => exact .refl
  | succ n ih =>
    rcases ρ.next_eq_or n with heq | ⟨a, -, hs⟩
    · rw [heq]
      exact ih
    · exact .tail ih hs

/-- What every step keeps holds from then on. -/
theorem stays (ρ : Execution T) {p : σ → Prop} (hstep : ∀ s a s', p s → T s a s' → p s') {n m : ℕ}
    (hnm : n ≤ m) (h : p (ρ.state n)) : p (ρ.state m) := by
  induction m, hnm using Nat.le_induction with
  | base => exact h
  | succ m _ ih =>
    rcases ρ.next_eq_or m with heq | ⟨a, -, hs⟩
    · rw [heq]
      exact ih
    · exact hstep _ _ _ ih hs

/-- An execution, with less said about its steps. -/
def mono {U : σ → α → σ → Prop} (ρ : Execution T) (h : ∀ s a s', T s a s' → U s a s') :
    Execution U where
  state := ρ.state
  label := ρ.label
  moves n a ha := h _ _ _ (ρ.moves n a ha)
  pauses := ρ.pauses

theorem FairWhile.mono {U : σ → α → σ → Prop} {ρ : Execution T} {due : σ → Prop} {C : Set α}
    (h : ρ.FairWhile due C) (hTU : ∀ s a s', T s a s' → U s a s')
    (henabled : ∀ s, Enabled U C s → Enabled T C s) : (ρ.mono hTU).FairWhile due C :=
  fun n hn => h n fun m hm => (hn m hm).imp_right (henabled _)

theorem FairTo.mono {U : σ → α → σ → Prop} {ρ : Execution T} {C : Set α} (h : ρ.FairTo C)
    (hTU : ∀ s a s', T s a s' → U s a s') (henabled : ∀ s, Enabled U C s → Enabled T C s) :
    (ρ.mono hTU).FairTo C :=
  fairTo_iff.2 ((fairTo_iff.1 h).mono hTU henabled)

/-- An execution from some time on. -/
def drop (ρ : Execution T) (k : ℕ) : Execution T where
  state n := ρ.state (n + k)
  label n := ρ.label (n + k)
  moves n a ha := by
    rw [Nat.add_right_comm]
    exact ρ.moves (n + k) a ha
  pauses n hn := by
    rw [Nat.add_right_comm]
    exact ρ.pauses (n + k) hn

theorem FairTo.drop {ρ : Execution T} {C : Set α} (h : ρ.FairTo C) (k : ℕ) :
    (ρ.drop k).FairTo C := by
  intro n hn
  have hlate : ∀ m ≥ n + k, Enabled T C (ρ.state m) := by
    intro m hm
    obtain ⟨d, rfl⟩ := Nat.exists_eq_add_of_le hm
    have := hn (n + d) (by omega)
    rwa [show (ρ.drop k).state (n + d) = ρ.state (n + k + d) by
      show ρ.state (n + d + k) = _
      rw [Nat.add_right_comm]] at this
  obtain ⟨m, hm, a, ha, hlabel⟩ := h (n + k) hlate
  refine ⟨m - k, by omega, a, ha, ?_⟩
  show ρ.label (m - k + k) = some a
  rw [Nat.sub_add_cancel (by omega)]
  exact hlabel

/-- The part of an execution that one of its components sees: its steps are the labels `g` keeps. -/
def project {τ β : Type*} {U : τ → β → τ → Prop} (ρ : Execution T) (f : σ → τ) (g : α → Option β)
    (hmoves : ∀ n a, ρ.label n = some a → ∀ b, g a = some b →
      U (f (ρ.state n)) b (f (ρ.state (n + 1))))
    (hpauses : ∀ n a, ρ.label n = some a → g a = none →
      f (ρ.state (n + 1)) = f (ρ.state n)) : Execution U where
  state n := f (ρ.state n)
  label n := (ρ.label n).bind g
  moves n b hb := by
    obtain ⟨a, ha, hg⟩ := Option.bind_eq_some_iff.1 hb
    exact hmoves n a ha b hg
  pauses n hn := by
    cases ha : ρ.label n with
    | none => rw [ρ.pauses n ha]
    | some a =>
      rw [ha] at hn
      exact hpauses n a ha hn

/-- A component is treated fairly if its labels are enabled in the whole when they are in it. -/
theorem FairWhile.project {τ β : Type*} {U : τ → β → τ → Prop} {ρ : Execution T} {f : σ → τ}
    {g : α → Option β} {hmoves hpauses} {dueT : τ → Prop} {due : σ → Prop} {D : Set α} {C : Set β}
    (h : ρ.FairWhile due D) (hdue : ∀ n, dueT (f (ρ.state n)) → due (ρ.state n))
    (henabled : ∀ n, Enabled U C (f (ρ.state n)) → Enabled T D (ρ.state n))
    (hlabel : ∀ a ∈ D, ∃ b ∈ C, g a = some b) :
    (ρ.project (U := U) f g hmoves hpauses).FairWhile dueT C := by
  intro n hn
  obtain ⟨m, hm, a, ha, hla⟩ :=
    h n fun m hm => ⟨hdue m (hn m hm).1, henabled m (hn m hm).2⟩
  obtain ⟨b, hb, hg⟩ := hlabel a ha
  refine ⟨m, hm, b, hb, ?_⟩
  show (ρ.label m).bind g = some b
  rw [hla]
  exact hg

theorem FairTo.project {τ β : Type*} {U : τ → β → τ → Prop} {ρ : Execution T} {f : σ → τ}
    {g : α → Option β} {hmoves hpauses} {D : Set α} {C : Set β} (h : ρ.FairTo D)
    (henabled : ∀ n, Enabled U C (f (ρ.state n)) → Enabled T D (ρ.state n))
    (hlabel : ∀ a ∈ D, ∃ b ∈ C, g a = some b) :
    (ρ.project (U := U) f g hmoves hpauses).FairTo C :=
  fairTo_iff.2 ((fairTo_iff.1 h).project (fun _ => id) henabled hlabel)

end Execution

/-- From `P` the goal `Q` is approached: every state names a helper that can take a step, the steps
of the helper lower the rank, and the others raise it never and keep the helper while they do not
lower it. -/
structure Ranking (T : σ → α → σ → Prop) (C : ι → Set α) (P Q : σ → Prop) (rank : σ → ℕ)
    (helper : σ → ι) : Prop where
  enabled : ∀ s, P s → ¬ Q s → Enabled T (C (helper s)) s
  step : ∀ s a s', P s → ¬ Q s → T s a s' →
    Q s' ∨ P s' ∧ (rank s' < rank s ∨ rank s' = rank s ∧ helper s' = helper s ∧ a ∉ C (helper s))

namespace Ranking

variable {T : σ → α → σ → Prop} {C : ι → Set α} {P Q : σ → Prop} {rank : σ → ℕ} {helper : σ → ι}

/-- As long as neither the goal is reached nor the rank has fallen, the helper stays the same. -/
theorem waits (h : Ranking T C P Q rank helper) (ρ : Execution T) {n : ℕ} (hP : P (ρ.state n))
    (hQ : ∀ m ≥ n, ¬ Q (ρ.state m))
    (hrank : ∀ m ≥ n, P (ρ.state m) → ¬ rank (ρ.state m) < rank (ρ.state n)) {m : ℕ} (hnm : n ≤ m) :
    P (ρ.state m) ∧ rank (ρ.state m) = rank (ρ.state n) ∧
      helper (ρ.state m) = helper (ρ.state n) := by
  induction m, hnm using Nat.le_induction with
  | base => exact ⟨hP, rfl, rfl⟩
  | succ m hnm ih =>
    obtain ⟨hPm, hrankm, hhelper⟩ := ih
    rcases ρ.next_eq_or m with heq | ⟨a, -, hs⟩
    · rw [heq]
      exact ⟨hPm, hrankm, hhelper⟩
    · rcases h.step _ _ _ hPm (hQ m hnm) hs with hgoal | ⟨hP', hlt | ⟨heq, hsame, -⟩⟩
      · exact absurd hgoal (hQ (m + 1) (by omega))
      · exact absurd (hrankm ▸ hlt) (hrank (m + 1) (by omega) hP')
      · exact ⟨hP', heq.trans hrankm, hsame.trans hhelper⟩

/-- Under fairness to the helpers while they are waited for, `P` leads to `Q`. -/
theorem leadsTo_while (h : Ranking T C P Q rank helper) (ρ : Execution T) {D : ι → σ → Prop}
    (hdue : ∀ s, P s → ¬ Q s → D (helper s) s) (hfair : ∀ i, ρ.FairWhile (D i) (C i))
    {n : ℕ} (hP : P (ρ.state n)) : ∃ m ≥ n, Q (ρ.state m) := by
  induction hk : rank (ρ.state n) using Nat.strong_induction_on generalizing n with
  | h k ih =>
    by_contra hno
    have hQ : ∀ m ≥ n, ¬ Q (ρ.state m) := fun m hm hq => hno ⟨m, hm, hq⟩
    have hrank : ∀ m ≥ n, P (ρ.state m) → ¬ rank (ρ.state m) < rank (ρ.state n) := by
      intro m hm hPm hlt
      obtain ⟨m', hm', hq⟩ := ih _ (hk ▸ hlt) hPm rfl
      exact hQ m' (by omega) hq
    have hwait := fun m hm => h.waits ρ hP hQ hrank (m := m) hm
    -- the helper is enabled for ever, so it moves, and its step lowers the rank
    have henabled : ∀ m ≥ n, D (helper (ρ.state n)) (ρ.state m) ∧
        Enabled T (C (helper (ρ.state n))) (ρ.state m) := by
      intro m hm
      obtain ⟨hPm, -, hhelper⟩ := hwait m hm
      rw [← hhelper]
      exact ⟨hdue _ hPm (hQ m hm), h.enabled _ hPm (hQ m hm)⟩
    obtain ⟨m, hm, a, ha, hlabel⟩ := hfair _ n henabled
    obtain ⟨hPm, hrankm, hhelper⟩ := hwait m hm
    have hs := ρ.moves m a hlabel
    rcases h.step _ _ _ hPm (hQ m hm) hs with hgoal | ⟨hP', hlt | ⟨-, -, hother⟩⟩
    · exact hQ (m + 1) (by omega) hgoal
    · exact hrank (m + 1) (by omega) hP' (hrankm ▸ hlt)
    · rw [hhelper] at hother
      exact hother ha

/-- Under fairness to the helpers, `P` leads to `Q`. -/
theorem leadsTo (h : Ranking T C P Q rank helper) (ρ : Execution T) (hfair : ∀ i, ρ.FairTo (C i))
    {n : ℕ} (hP : P (ρ.state n)) : ∃ m ≥ n, Q (ρ.state m) :=
  h.leadsTo_while ρ (D := fun _ _ => True) (fun _ _ _ => trivial)
    (fun i => Execution.fairTo_iff.1 (hfair i)) hP

/-- Rankings that each lead to a smaller measure, or to the goal, lead to the goal together. -/
theorem leadsTo_while_of_measure {β : Type*} [Preorder β] [WellFoundedLT β] (μ : σ → β)
    (h : ∀ v, Ranking T C (fun s => P s ∧ μ s = v) (fun s => Q s ∨ P s ∧ μ s < v) rank helper)
    (ρ : Execution T) {D : ι → σ → Prop} (hdue : ∀ s, P s → ¬ Q s → D (helper s) s)
    (hfair : ∀ i, ρ.FairWhile (D i) (C i)) {n : ℕ} (hP : P (ρ.state n)) :
    ∃ m ≥ n, Q (ρ.state m) := by
  induction hv : μ (ρ.state n) using WellFoundedLT.induction generalizing n with
  | ind v ih =>
    obtain ⟨m, hm, hgoal | ⟨hP', hless⟩⟩ :=
      (h v).leadsTo_while ρ (fun s hs hno => hdue s hs.1 fun hq => hno (Or.inl hq)) hfair ⟨hP, hv⟩
    · exact ⟨m, hm, hgoal⟩
    · obtain ⟨m', hm', hgoal⟩ := ih _ hless hP' rfl
      exact ⟨m', by omega, hgoal⟩

theorem leadsTo_of_measure {β : Type*} [Preorder β] [WellFoundedLT β] (μ : σ → β)
    (h : ∀ v, Ranking T C (fun s => P s ∧ μ s = v) (fun s => Q s ∨ P s ∧ μ s < v) rank helper)
    (ρ : Execution T) (hfair : ∀ i, ρ.FairTo (C i)) {n : ℕ} (hP : P (ρ.state n)) :
    ∃ m ≥ n, Q (ρ.state m) :=
  leadsTo_while_of_measure μ h ρ (D := fun _ _ => True) (fun _ _ _ => trivial)
    (fun i => Execution.fairTo_iff.1 (hfair i)) hP

end Ranking

/-! ### Finite runs as executions -/

section OfExec

variable {step : σ → α → Option σ} {s s' : σ} {as : List α}

/-- The state after the first labels. -/
def stateAfter (step : σ → α → Option σ) (s : σ) (as : List α) (n : ℕ) : σ :=
  (exec step s (as.take n)).getD s

theorem exec_take (h : exec step s as = some s') (n : ℕ) :
    ∃ t, exec step s (as.take n) = some t := by
  induction as generalizing s n with
  | nil => exact ⟨s, by simp [exec]⟩
  | cons a as ih =>
    cases n with
    | zero => exact ⟨s, rfl⟩
    | succ n =>
      obtain ⟨t, ht, h⟩ := Option.bind_eq_some_iff.1 h
      obtain ⟨t', ht'⟩ := ih h n
      exact ⟨t', by simp [exec, ht, ht']⟩

theorem exec_stateAfter (h : exec step s as = some s') (n : ℕ) :
    exec step s (as.take n) = some (stateAfter step s as n) := by
  obtain ⟨t, ht⟩ := exec_take h n
  simp [stateAfter, ht]

/-- The run with these labels, which then stops. -/
def ofExec (h : exec step s as = some s') : Execution (ofFn step) where
  state := stateAfter step s as
  label n := as[n]?
  moves n a ha := by
    have hsucc := exec_stateAfter h (n + 1)
    rw [List.take_add_one, ha, Option.toList_some, exec_concat, exec_stateAfter h n] at hsucc
    exact hsucc
  pauses n hn := by
    have hlen : as.length ≤ n := List.getElem?_eq_none_iff.1 hn
    simp only [stateAfter, List.take_of_length_le hlen,
      List.take_of_length_le (Nat.le_succ_of_le hlen)]

@[simp] theorem ofExec_zero (h : exec step s as = some s') : (ofExec h).state 0 = s := by
  simp [ofExec, stateAfter, exec]

theorem ofExec_of_le (h : exec step s as = some s') {n : ℕ} (hn : as.length ≤ n) :
    (ofExec h).state n = s' := by
  simp [ofExec, stateAfter, List.take_of_length_le hn, h]

/-- A run that stops where labels are disabled is fair to them. -/
theorem fairTo_ofExec (h : exec step s as = some s') {C : Set α}
    (hC : ∀ a ∈ C, step s' a = none) : (ofExec h).FairTo C := by
  intro n hn
  obtain ⟨a, ha, t, ht⟩ := hn (n + as.length) (by omega)
  rw [ofExec_of_le h (by omega)] at ht
  simp [ofFn, hC a ha] at ht

/-- The run with these allowed labels, which then stops. -/
def ofExecWhen {ok : σ → α → Prop} [∀ s a, Decidable (ok s a)]
    (h : exec (guarded step ok) s as = some s') : Execution (when (ofFn step) ok) :=
  (ofExec h).mono fun _ _ _ => guarded_eq_some.1

theorem fairTo_ofExecWhen {ok : σ → α → Prop} [∀ s a, Decidable (ok s a)]
    (h : exec (guarded step ok) s as = some s') {C : Set α} (hC : ∀ a ∈ C, step s' a = none) :
    (ofExecWhen h).FairTo C := by
  have hguarded : ∀ a ∈ C, guarded step ok s' a = none := by
    intro a ha
    unfold guarded
    rw [hC a ha, ite_self]
  exact (fairTo_ofExec h hguarded).mono (fun _ _ _ => guarded_eq_some.1)
    fun _ ⟨a, ha, t, ht⟩ => ⟨a, ha, t, guarded_eq_some.2 ht⟩

end OfExec

/-! ### Executions that go round -/

section OfCycle

variable {step : σ → α → Option σ} {p : σ → Prop} {cycle : List α} {s s' : σ}

/-- The states in which the rounds begin. -/
def roundAt (step : σ → α → Option σ) (cycle : List α) (s : σ) : ℕ → σ
  | 0 => s
  | n + 1 => stateAfter step (roundAt step cycle s n) cycle cycle.length

theorem roundAt_spec (hcycle : ∀ s, p s → ∃ s', exec step s cycle = some s' ∧ p s') (h : p s)
    (n : ℕ) : p (roundAt step cycle s n) ∧
      exec step (roundAt step cycle s n) cycle = some (roundAt step cycle s (n + 1)) := by
  induction n with
  | zero =>
    obtain ⟨s', hs, -⟩ := hcycle s h
    refine ⟨h, ?_⟩
    have htake := exec_stateAfter hs cycle.length
    rwa [List.take_length] at htake
  | succ n ih =>
    obtain ⟨s', hs, hp'⟩ := hcycle _ ih.1
    have heq : roundAt step cycle s (n + 1) = s' := by rw [ih.2] at hs; exact Option.some.inj hs
    have hp : p (roundAt step cycle s (n + 1)) := heq ▸ hp'
    obtain ⟨s'', hs', -⟩ := hcycle _ hp
    refine ⟨hp, ?_⟩
    have htake := exec_stateAfter hs' cycle.length
    rwa [List.take_length] at htake

/-- The execution that goes round for ever; the last step of a round leads to the next one. -/
def ofCycle (hcycle : ∀ s, p s → ∃ s', exec step s cycle = some s' ∧ p s') (hne : 0 < cycle.length)
    (h : p s) : Execution (ofFn step) where
  state n := stateAfter step (roundAt step cycle s (n / cycle.length)) cycle (n % cycle.length)
  label n := cycle[n % cycle.length]?
  moves n a ha := by
    have hexec := (roundAt_spec hcycle h (n / cycle.length)).2
    have hmove := (ofExec hexec).moves (n % cycle.length) a ha
    have hlt := Nat.mod_lt n hne
    rcases Nat.lt_or_eq_of_le (Nat.succ_le_of_lt hlt) with hin | hend
    · have hdiv : (n + 1) / cycle.length = n / cycle.length := by
        rw [Nat.succ_div, if_neg, Nat.add_zero]
        rw [Nat.dvd_iff_mod_eq_zero, Nat.add_mod, Nat.mod_eq_of_lt (a := 1) (by omega),
          Nat.mod_eq_of_lt hin]
        omega
      have hmod : (n + 1) % cycle.length = n % cycle.length + 1 := by
        rw [Nat.add_mod, Nat.mod_eq_of_lt (a := 1) (by omega), Nat.mod_eq_of_lt hin]
      rw [hdiv, hmod]
      exact hmove
    · have hdvd : cycle.length ∣ n + 1 := by
        rw [Nat.dvd_iff_mod_eq_zero, ← Nat.mod_add_mod, ← Nat.succ_eq_add_one, hend, Nat.mod_self]
      rw [Nat.succ_div_of_dvd hdvd, Nat.mod_eq_zero_of_dvd hdvd]
      have hlast : (ofExec hexec).state (n % cycle.length + 1) =
          roundAt step cycle s (n / cycle.length + 1) := ofExec_of_le hexec hend.ge
      rw [hlast] at hmove
      exact hmove
  pauses n hn := by
    have hlen := List.getElem?_eq_none_iff.1 hn
    exact absurd (Nat.mod_lt n hne) (by omega)

@[simp] theorem ofCycle_zero (hcycle : ∀ s, p s → ∃ s', exec step s cycle = some s' ∧ p s')
    (hne : 0 < cycle.length) (h : p s) : (ofCycle hcycle hne h).state 0 = s := by
  simp [ofCycle, stateAfter, exec, roundAt]

/-- It is fair to the labels of the cycle, and to those that are disabled, or not waited for, when
it begins. -/
theorem fairWhile_ofCycle (hcycle : ∀ s, p s → ∃ s', exec step s cycle = some s' ∧ p s')
    (hne : 0 < cycle.length) (h : p s) {due : σ → Prop} {C : Set α}
    (hC : (∃ a ∈ cycle, a ∈ C) ∨ ∀ s, p s → due s → ∀ a ∈ C, step s a = none) :
    (ofCycle hcycle hne h).FairWhile due C := by
  intro n hn
  have hlate : n ≤ cycle.length * n := Nat.le_mul_of_pos_left n hne
  rcases hC with ⟨a, ha, haC⟩ | hdisabled
  · obtain ⟨j, hj, rfl⟩ := List.getElem_of_mem ha
    refine ⟨cycle.length * n + j, by omega, _, haC, ?_⟩
    show cycle[(cycle.length * n + j) % cycle.length]? = _
    rw [Nat.mul_add_mod, Nat.mod_eq_of_lt hj, List.getElem?_eq_getElem hj]
  · obtain ⟨hdue, a, ha, t, ht⟩ := hn _ hlate
    have hstate : (ofCycle hcycle hne h).state (cycle.length * n) = roundAt step cycle s n := by
      simp [ofCycle, Nat.mul_div_cancel_left n hne, stateAfter, exec]
    rw [hstate] at hdue ht
    rw [ofFn, hdisabled _ (roundAt_spec hcycle h n).1 hdue a ha] at ht
    cases ht

/-- The same with allowed labels. -/
def ofCycleWhen {ok : σ → α → Prop} [∀ s a, Decidable (ok s a)]
    (hcycle : ∀ s, p s → ∃ s', exec (guarded step ok) s cycle = some s' ∧ p s')
    (hne : 0 < cycle.length) (h : p s) : Execution (when (ofFn step) ok) :=
  (ofCycle hcycle hne h).mono fun _ _ _ => guarded_eq_some.1

@[simp] theorem ofCycleWhen_zero {ok : σ → α → Prop} [∀ s a, Decidable (ok s a)]
    (hcycle : ∀ s, p s → ∃ s', exec (guarded step ok) s cycle = some s' ∧ p s')
    (hne : 0 < cycle.length) (h : p s) : (ofCycleWhen hcycle hne h).state 0 = s :=
  ofCycle_zero hcycle hne h

theorem fairWhile_ofCycleWhen {ok : σ → α → Prop} [∀ s a, Decidable (ok s a)]
    (hcycle : ∀ s, p s → ∃ s', exec (guarded step ok) s cycle = some s' ∧ p s')
    (hne : 0 < cycle.length) (h : p s) {due : σ → Prop} {C : Set α}
    (hC : (∃ a ∈ cycle, a ∈ C) ∨ ∀ s, p s → due s → ∀ a ∈ C, step s a = none) :
    (ofCycleWhen hcycle hne h).FairWhile due C := by
  have hguarded : (∃ a ∈ cycle, a ∈ C) ∨
      ∀ s, p s → due s → ∀ a ∈ C, guarded step ok s a = none := by
    refine hC.imp_right fun hdisabled s hs hdue a ha => ?_
    unfold guarded
    rw [hdisabled s hs hdue a ha, ite_self]
  exact (fairWhile_ofCycle hcycle hne h hguarded).mono (fun _ _ _ => guarded_eq_some.1)
    fun _ ⟨a, ha, t, ht⟩ => ⟨a, ha, t, guarded_eq_some.2 ht⟩

theorem fairTo_ofCycleWhen {ok : σ → α → Prop} [∀ s a, Decidable (ok s a)]
    (hcycle : ∀ s, p s → ∃ s', exec (guarded step ok) s cycle = some s' ∧ p s')
    (hne : 0 < cycle.length) (h : p s) {C : Set α}
    (hC : (∃ a ∈ cycle, a ∈ C) ∨ ∀ s, p s → ∀ a ∈ C, step s a = none) :
    (ofCycleWhen hcycle hne h).FairTo C :=
  Execution.fairTo_iff.2
    (fairWhile_ofCycleWhen hcycle hne h (hC.imp_right fun hno s hs _ => hno s hs))

end OfCycle

/-! ### A step before an execution -/

namespace Execution

variable {T : σ → α → σ → Prop}

def cons (ρ : Execution T) {s : σ} {a : α} (h : T s a (ρ.state 0)) : Execution T where
  state
    | 0 => s
    | n + 1 => ρ.state n
  label
    | 0 => some a
    | n + 1 => ρ.label n
  moves
    | 0, _, ha => Option.some.inj ha ▸ h
    | n + 1, b, hb => ρ.moves n b hb
  pauses
    | 0, hn => by cases hn
    | n + 1, hn => ρ.pauses n hn

theorem FairWhile.cons {ρ : Execution T} {due : σ → Prop} {C : Set α}
    (hfair : ρ.FairWhile due C) {s : σ} {a : α} (h : T s a (ρ.state 0)) :
    (ρ.cons h).FairWhile due C := by
  intro n hn
  obtain ⟨m, hm, b, hb, hlabel⟩ := hfair n fun m hm => hn (m + 1) (by omega)
  exact ⟨m + 1, by omega, b, hb, hlabel⟩

/-- An execution can be begun earlier. -/
theorem exists_of_reach (ρ : Execution T) {s : σ} (h : Reach T s (ρ.state 0)) :
    ∃ ρ' : Execution T, ρ'.state 0 = s ∧ ∀ due C, ρ.FairWhile due C → ρ'.FairWhile due C := by
  generalize hs : ρ.state 0 = s' at h
  induction h generalizing ρ with
  | refl => exact ⟨ρ, hs, fun _ _ => id⟩
  | tail _ hstep ih =>
    subst hs
    obtain ⟨ρ', hρ', hfair⟩ := ih (ρ.cons hstep) rfl
    exact ⟨ρ', hρ', fun due C hC => hfair due C (hC.cons hstep)⟩

end Execution

end Machine
