import Mathlib.Tactic

/-!
# Labelled machines: reachable states, runs and refinement

A machine is a step relation `T : σ → α → σ → Prop`; the label of a step says who moved and
what the environment answered.

* `ofFn step` is the machine of an executable, partial step function;
* `when T ok` keeps the steps whose label is allowed in the state they leave, so that
  "every run all of whose steps meet a condition" is a machine again;
* `Reach T s₀ s`: some run of `T` leads from `s₀` to `s`;
* `Run T s₀ tr s`: the run itself, `tr` its steps with the states they left, latest first;
* `Refines`: a simulation of one machine by another along a map of the states.
-/

namespace Machine

variable {σ τ α β : Type*}

/-- The step relation of a partial step function. -/
def ofFn (step : σ → α → Option σ) (s : σ) (a : α) (s' : σ) : Prop := step s a = some s'

/-- The steps whose label is allowed in the state they leave. -/
def when (T : σ → α → σ → Prop) (ok : σ → α → Prop) (s : σ) (a : α) (s' : σ) : Prop :=
  ok s a ∧ T s a s'

/-- The states some run from `s₀` leads to. -/
inductive Reach (T : σ → α → σ → Prop) (s₀ : σ) : σ → Prop
  | refl : Reach T s₀ s₀
  | tail {s s' : σ} {a : α} : Reach T s₀ s → T s a s' → Reach T s₀ s'

namespace Reach

variable {T U : σ → α → σ → Prop} {ok : σ → α → Prop} {s₀ s s' : σ}

theorem single {a : α} (h : T s a s') : Reach T s s' := .tail .refl h

theorem trans (h₁ : Reach T s₀ s) (h₂ : Reach T s s') : Reach T s₀ s' := by
  induction h₂ with
  | refl => exact h₁
  | tail _ hs ih => exact .tail ih hs

theorem mono (hTU : ∀ s a s', T s a s' → U s a s') (h : Reach T s₀ s) : Reach U s₀ s := by
  induction h with
  | refl => exact .refl
  | tail _ hs ih => exact .tail ih (hTU _ _ _ hs)

theorem of_when (h : Reach (when T ok) s₀ s) : Reach T s₀ s :=
  h.mono fun _ _ _ hs => hs.2

/-- What holds at the start and is kept by every step holds in every reachable state. -/
theorem invariant {p : σ → Prop} (h0 : p s₀)
    (hstep : ∀ s a s', p s → T s a s' → p s') (h : Reach T s₀ s) : p s := by
  induction h with
  | refl => exact h0
  | tail _ hs ih => exact hstep _ _ _ ih hs

/-- Where some steps that decrease a measure can be taken from every state outside the goal, the
goal can be reached. -/
theorem exists_goal_of_decreasing {p goal : σ → Prop} (μ : σ → ℕ)
    (hstep : ∀ s, p s → ¬ goal s → ∃ s', Reach T s s' ∧ p s' ∧ μ s' < μ s) (h : p s) :
    ∃ s', Reach T s s' ∧ p s' ∧ goal s' := by
  induction hn : μ s using Nat.strong_induction_on generalizing s with
  | h n ih =>
    by_cases hgoal : goal s
    · exact ⟨s, .refl, h, hgoal⟩
    · obtain ⟨s', hs, hp, hless⟩ := hstep s h hgoal
      obtain ⟨s'', hreach, hp', hgoal'⟩ := ih (μ s') (hn ▸ hless) hp rfl
      exact ⟨s'', hs.trans hreach, hp', hgoal'⟩

end Reach

/-- The sum of a measure over a list of components, when one of them changes. -/
theorem sum_map_modify {l : List σ} {i : ℕ} {x : σ} (f : σ → σ) (μ : σ → ℕ) (hi : l[i]? = some x) :
    ((l.modify i f).map μ).sum + μ x = (l.map μ).sum + μ (f x) := by
  induction l generalizing i with
  | nil => cases hi
  | cons y l ih =>
    cases i with
    | zero =>
      cases hi
      simp only [List.modify_zero_cons, List.map_cons, List.sum_cons]
      omega
    | succ i =>
      have hl := ih hi
      simp only [List.modify_succ_cons, List.map_cons, List.sum_cons]
      omega

/-! ### Runs -/

/-- A run from `s₀`, with its steps and the states they left, latest first. -/
inductive Run (T : σ → α → σ → Prop) (s₀ : σ) : List (σ × α) → σ → Prop
  | nil : Run T s₀ [] s₀
  | snoc {tr : List (σ × α)} {s s' : σ} {a : α} :
      Run T s₀ tr s → T s a s' → Run T s₀ ((s, a) :: tr) s'

/-- The states a run goes through, its last one included. -/
def visited (tr : List (σ × α)) (s : σ) : List σ := s :: tr.map Prod.fst

namespace Run

variable {T : σ → α → σ → Prop} {ok : σ → α → Prop} {s₀ s : σ} {tr : List (σ × α)}

theorem reach (h : Run T s₀ tr s) : Reach T s₀ s := by
  induction h with
  | nil => exact .refl
  | snoc _ hs ih => exact .tail ih hs

/-- A step of a run leaves a state that can be reached. -/
theorem reach_of_mem {p : σ × α} (h : Run T s₀ tr s) (hp : p ∈ tr) : Reach T s₀ p.1 := by
  induction h with
  | nil => cases hp
  | snoc hr _ ih =>
    rcases List.mem_cons.mp hp with rfl | hp
    · exact hr.reach
    · exact ih hp

theorem mono {U : σ → α → σ → Prop} (hTU : ∀ s a s', T s a s' → U s a s')
    (h : Run T s₀ tr s) : Run U s₀ tr s := by
  induction h with
  | nil => exact .nil
  | snoc _ hs ih => exact ih.snoc (hTU _ _ _ hs)

theorem reach_when (h : Run T s₀ tr s) (hok : ∀ p ∈ tr, ok p.1 p.2) :
    Reach (when T ok) s₀ s := by
  induction h with
  | nil => exact .refl
  | snoc _ hs ih =>
    obtain ⟨ha, htr⟩ := List.forall_mem_cons.1 hok
    exact .tail (ih htr) ⟨ha, hs⟩

/-- Where the allowed steps keep `P` and the first other step breaks it at once, a run stays
inside `P` exactly when all its steps are allowed. -/
theorem forall_visited_iff {P : σ → Prop} (h0 : P s₀)
    (hgood : ∀ s, Reach (when T ok) s₀ s → P s)
    (hbad : ∀ s a s', Reach (when T ok) s₀ s → ¬ ok s a → T s a s' → ¬ P s')
    (h : Run T s₀ tr s) :
    (∀ t ∈ visited tr s, P t) ↔ ∀ p ∈ tr, ok p.1 p.2 := by
  induction h with
  | nil => simpa [visited] using h0
  | @snoc tr s s' a hr hs ih =>
    have hsplit : (∀ t ∈ visited ((s, a) :: tr) s', P t) ↔ P s' ∧ ∀ t ∈ visited tr s, P t := by
      simp [visited]
    rw [hsplit, ih, List.forall_mem_cons]
    constructor
    · rintro ⟨hP, htr⟩
      refine ⟨?_, htr⟩
      by_contra hno
      exact hbad s a s' (hr.reach_when htr) hno hs hP
    · rintro ⟨ha, htr⟩
      exact ⟨hgood s' (.tail (hr.reach_when htr) ⟨ha, hs⟩), htr⟩

end Run

/-! ### Executing a step function -/

/-- Run a list of labels, in order. -/
def exec (step : σ → α → Option σ) : σ → List α → Option σ
  | s, [] => some s
  | s, a :: as => (step s a).bind fun s' => exec step s' as

theorem exec_concat {step : σ → α → Option σ} {s : σ} (as : List α) (a : α) :
    exec step s (as ++ [a]) = (exec step s as).bind (step · a) := by
  induction as generalizing s with
  | nil => simp [exec]
  | cons b as ih => simp [exec, ih, Option.bind_assoc]

theorem reach_of_exec {step : σ → α → Option σ} {s s' : σ} {as : List α}
    (h : exec step s as = some s') : Reach (ofFn step) s s' := by
  induction as generalizing s with
  | nil => cases h; exact .refl
  | cons a as ih =>
    obtain ⟨t, ht, h⟩ := Option.bind_eq_some_iff.1 h
    exact (Reach.single ht).trans (ih h)

/-- A run goes on with a list of labels that can be executed. -/
theorem Run.append_exec {step : σ → α → Option σ} {s₀ s s' : σ} {tr : List (σ × α)}
    {as : List α} (hr : Run (ofFn step) s₀ tr s) (h : exec step s as = some s') :
    ∃ tr', Run (ofFn step) s₀ tr' s' ∧ tr'.map Prod.snd = as.reverse ++ tr.map Prod.snd := by
  induction as generalizing s tr with
  | nil =>
    cases h
    exact ⟨tr, hr, rfl⟩
  | cons a as ih =>
    obtain ⟨t, ht, h⟩ := Option.bind_eq_some_iff.1 h
    obtain ⟨tr', hr', htr'⟩ := ih (hr.snoc ht) h
    exact ⟨tr', hr', by simpa using htr'⟩

/-- A step function that refuses the labels `ok` does not allow. -/
def guarded (step : σ → α → Option σ) (ok : σ → α → Prop) [∀ s a, Decidable (ok s a)]
    (s : σ) (a : α) : Option σ :=
  if ok s a then step s a else none

theorem guarded_eq_some {step : σ → α → Option σ} {ok : σ → α → Prop}
    [∀ s a, Decidable (ok s a)] {s s' : σ} {a : α} :
    guarded step ok s a = some s' ↔ when (ofFn step) ok s a s' := by
  unfold guarded when ofFn
  split_ifs with h <;> simp [h]

/-- A concrete list of labels that ends in a state passing a test reaches such a state. -/
theorem exists_reach_of_exec (step : σ → α → Option σ) (s : σ) (as : List α) (p : σ → Bool)
    (h : (exec step s as).map p = some true) : ∃ s', Reach (ofFn step) s s' ∧ p s' = true := by
  obtain ⟨s', hs', hp⟩ := Option.map_eq_some_iff.1 h
  exact ⟨s', reach_of_exec hs', hp⟩

theorem exists_reach_when_of_exec (step : σ → α → Option σ) (ok : σ → α → Prop)
    [∀ s a, Decidable (ok s a)] (s : σ) (as : List α) (p : σ → Bool)
    (h : (exec (guarded step ok) s as).map p = some true) :
    ∃ s', Reach (when (ofFn step) ok) s s' ∧ p s' = true := by
  obtain ⟨s', hs', hp⟩ := exists_reach_of_exec _ s as p h
  exact ⟨s', hs'.mono fun _ _ _ => guarded_eq_some.1, hp⟩

theorem Run.extend_exec {step : σ → α → Option σ} {ok : σ → α → Prop}
    [∀ s a, Decidable (ok s a)] {s₀ s s' : σ} {tr : List (σ × α)} {as : List α}
    (hr : Run (ofFn step) s₀ tr s) (hok : ∀ p ∈ tr, ok p.1 p.2)
    (h : exec (guarded step ok) s as = some s') :
    ∃ tr', Run (ofFn step) s₀ tr' s' ∧ (∀ p ∈ tr', ok p.1 p.2) ∧
      tr'.map Prod.snd = as.reverse ++ tr.map Prod.snd := by
  induction as generalizing s tr with
  | nil =>
    cases h
    exact ⟨tr, hr, hok, rfl⟩
  | cons a as ih =>
    obtain ⟨t, ht, h⟩ := Option.bind_eq_some_iff.1 h
    obtain ⟨ha, hs⟩ := guarded_eq_some.1 ht
    obtain ⟨tr', hr', hok', htr'⟩ := ih (hr.snoc hs) (List.forall_mem_cons.2 ⟨ha, hok⟩) h
    exact ⟨tr', hr', hok', by simpa using htr'⟩

/-- A concrete list of allowed labels that can be executed is a run of allowed steps. -/
theorem exists_run_of_exec (step : σ → α → Option σ) (ok : σ → α → Prop)
    [∀ s a, Decidable (ok s a)] (s : σ) (as : List α)
    (h : (exec (guarded step ok) s as).isSome) :
    ∃ tr s', Run (ofFn step) s tr s' ∧ (∀ p ∈ tr, ok p.1 p.2) ∧
      tr.map Prod.snd = as.reverse := by
  obtain ⟨s', hs'⟩ := Option.isSome_iff_exists.1 h
  obtain ⟨tr, hr, hok, htr⟩ := Run.nil.extend_exec (by simp) hs'
  exact ⟨tr, s', hr, hok, by simpa using htr⟩

/-! ### Total step functions -/

/-- Every step of the run with these labels has the property. -/
def Along (step : σ → α → σ) (P : σ → α → Prop) : σ → List α → Prop
  | _, [] => True
  | s, a :: as => P s a ∧ Along step P (step s a) as

instance decidableAlong (step : σ → α → σ) (P : σ → α → Prop) [∀ s a, Decidable (P s a)] :
    (s : σ) → (as : List α) → Decidable (Along step P s as)
  | _, [] => .isTrue trivial
  | s, a :: as =>
    have := decidableAlong step P (step s a) as
    inferInstanceAs (Decidable (P s a ∧ Along step P (step s a) as))

theorem along_congr {step : σ → α → σ} {P Q : σ → α → Prop} (h : ∀ s a, P s a ↔ Q s a) (s : σ)
    (as : List α) : Along step P s as ↔ Along step Q s as := by
  induction as generalizing s with
  | nil => exact Iff.rfl
  | cons a as ih => exact and_congr (h s a) (ih (step s a))

/-- A property of the labels alone. -/
theorem along_label {step : σ → α → σ} {p : α → Prop} (s : σ) (as : List α) :
    Along step (fun _ a => p a) s as ↔ ∀ a ∈ as, p a := by
  induction as generalizing s with
  | nil => simp [Along]
  | cons a as ih => rw [Along, ih, List.forall_mem_cons]

/-- Two properties of the steps that agree from the states of an invariant, which the steps with
the second property preserve. -/
theorem along_iff_of_invariant {step : σ → α → σ} {I : σ → Prop} {C P Q : σ → α → Prop}
    (hiff : ∀ s a, I s → C s a → (P s a ↔ Q s a))
    (hstep : ∀ s a, I s → C s a → Q s a → I (step s a)) {s : σ} (hs : I s) {as : List α}
    (hC : Along step C s as) : Along step P s as ↔ Along step Q s as := by
  induction as generalizing s with
  | nil => exact Iff.rfl
  | cons a as ih =>
    have ha := hiff s a hs hC.1
    constructor
    · rintro ⟨hP, has⟩
      have hQ := ha.mp hP
      exact ⟨hQ, (ih (hstep s a hs hC.1 hQ) hC.2).mp has⟩
    · rintro ⟨hQ, has⟩
      exact ⟨ha.mpr hQ, (ih (hstep s a hs hC.1 hQ) hC.2).mpr has⟩

/-! ### Refinement -/

/-- `T` refines `U` along `abs`, with the help of an invariant of `T`: every step of `T` is,
seen through `abs`, some number of steps of `U`. -/
structure Refines (T : σ → α → σ → Prop) (U : τ → β → τ → Prop) (abs : σ → τ)
    (Inv : σ → Prop) : Prop where
  preserves : ∀ s a s', Inv s → T s a s' → Inv s'
  simulates : ∀ s a s', Inv s → T s a s' → Reach U (abs s) (abs s')

theorem Refines.reach {T : σ → α → σ → Prop} {U : τ → β → τ → Prop} {abs : σ → τ}
    {Inv : σ → Prop} (hR : Refines T U abs Inv) {s₀ s : σ} (h0 : Inv s₀) (h : Reach T s₀ s) :
    Inv s ∧ Reach U (abs s₀) (abs s) := by
  induction h with
  | refl => exact ⟨h0, .refl⟩
  | tail _ hs ih =>
    exact ⟨hR.preserves _ _ _ ih.1 hs, ih.2.trans (hR.simulates _ _ _ ih.1 hs)⟩

end Machine
