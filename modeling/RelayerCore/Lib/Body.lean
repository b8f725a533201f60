import Mathlib.Tactic

/-!
# Function bodies that return early

A piece of a function's body changes a state and then either ends normally, so that the next piece
goes on from its value, or returns from the function.  The question mark of Rust is such a return:
what comes after the piece it stands in is not reached.

The rules tell which quantities of the state a body keeps, and that a block whose normal end is
never an error makes what records its errors afterwards dead code.
-/

/-- A function of a state: its result, and the state it leaves. -/
abbrev Effect (σ α : Type) := σ → α × σ

/-- What becomes of the result. -/
def Effect.map {σ α β : Type} (f : α → β) (e : Effect σ α) : Effect σ β := fun s =>
  (f (e s).1, (e s).2)

/-- A function of a part of the state. -/
def Effect.zoom {σ τ α : Type} (get : τ → σ) (set : τ → σ → τ) (e : Effect σ α) : Effect τ α :=
  fun t => ((e (get t)).1, set t (e (get t)).2)

/-- How a piece of the body of a function with results in `R` ends. -/
inductive Completion (R α : Type)
  | normal (a : α)
  | returned (r : R)
  deriving DecidableEq

/-- A piece of the body of a function with results in `R`. -/
def Body (σ R α : Type) := σ → Completion R α × σ

/-- `Result::is_err`. -/
def isErr {ε α : Type} : Except ε α → Bool
  | .ok _ => false
  | .error _ => true

@[simp] theorem isErr_ok {ε α : Type} (a : α) : isErr (.ok a : Except ε α) = false := rfl

@[simp] theorem isErr_error {ε α : Type} (e : ε) : isErr (.error e : Except ε α) = true := rfl

@[simp] theorem isErr_mapError {ε ε' α : Type} (f : ε → ε') (res : Except ε α) :
    isErr (res.mapError f) = isErr res := by
  cases res <;> rfl

@[simp] theorem isErr_map {ε α β : Type} (f : α → β) (res : Except ε α) :
    isErr (res.map f) = isErr res := by
  cases res <;> rfl

namespace Body

variable {σ τ R α β ε : Type}

instance : Monad (Body σ R) where
  pure a s := (.normal a, s)
  bind b f s :=
    match b s with
    | (.normal a, s') => f a s'
    | (.returned r, s') => (.returned r, s')

/-! ### Pieces -/

/-- `return`. -/
def ret (r : R) : Body σ R α := fun s => (.returned r, s)

/-- The question mark. -/
def question : Except ε α → Body σ (Except ε β) α
  | .ok a => pure a
  | .error e => ret (.error e)

/-- A change of the state. -/
def act (f : σ → σ) : Body σ R Unit := fun s => (.normal (), f s)

/-- The call of another function. -/
def perform (f : Effect σ α) : Body σ R α := fun s => (.normal (f s).1, (f s).2)

/-- `inspect_err` with a recording closure; also a test of `is_err` that records. -/
def recordErr (record : σ → σ) (res : Except ε α) : Body σ R (Except ε α) := do
  if isErr res then act record
  pure res

/-- The function with a body: its result is what the body returns or ends in. -/
def call (b : Body σ R R) : Effect σ R := fun s =>
  match b s with
  | (.normal r, s') => (r, s')
  | (.returned r, s') => (r, s')

/-! ### Running a body -/

section Run

variable {b : Body σ R α} {f : α → Body σ R β} {s : σ}

instance : LawfulMonad (Body σ R) := by
  refine LawfulMonad.mk' _ (fun b => ?_) (fun a f => rfl) (fun b f g => ?_)
  · funext s
    show (match b s with | (.normal a, s') => _ | (.returned r, s') => _) = b s
    cases h : b s with
    | mk c s' => cases c <;> rfl
  · funext s
    show (match (match b s with | (.normal a, s') => f a s' | (.returned r, s') => _) with
        | (.normal a, s') => _ | (.returned r, s') => _) =
      match b s with | (.normal a, s') => _ | (.returned r, s') => _
    cases h : b s with
    | mk c s' => cases c <;> rfl

theorem bind_apply (b : Body σ R α) (f : α → Body σ R β) (s : σ) : (b >>= f) s =
    match b s with
    | (.normal a, s') => f a s'
    | (.returned r, s') => (.returned r, s') := rfl

@[simp] theorem ret_bind (r : R) (f : α → Body σ R β) : ret r >>= f = ret r := rfl

@[simp] theorem question_ok (a : α) :
    (question (.ok a : Except ε α) : Body σ (Except ε β) α) = pure a := rfl

@[simp] theorem question_error (e : ε) :
    (question (.error e : Except ε α) : Body σ (Except ε β) α) = ret (.error e) := rfl

@[simp] theorem call_pure (r : R) (s : σ) : call (pure r : Body σ R R) s = (r, s) := rfl

@[simp] theorem call_ret (r : R) (s : σ) : call (ret r : Body σ R R) s = (r, s) := rfl

@[simp] theorem call_act_bind (g : σ → σ) (f : Unit → Body σ R R) (s : σ) :
    call (act g >>= f) s = call (f ()) (g s) := rfl

@[simp] theorem call_perform_bind (g : Effect σ α) (f : α → Body σ R R) (s : σ) :
    call (perform g >>= f) s = call (f (g s).1) (g s).2 := rfl

/-- A question mark after `map_err`. -/
theorem call_question_mapError_bind {ε' : Type} {f : α → Body σ (Except ε β) (Except ε β)}
    (g : ε' → ε) (res : Except ε' α) (s : σ) :
    call (question (res.mapError g) >>= f) s =
      match res with
      | .ok a => call (f a) s
      | .error e => (.error (g e), s) := by
  cases res <;> rfl

/-- A body that goes on after a question mark succeeds if the value is there and the rest
succeeds. -/
theorem isErr_call_question_bind {f : α → Body σ (Except ε β) (Except ε β)} {res : Except ε α} :
    isErr (call (question res >>= f) s).1 = false ↔
      ∃ a, res = .ok a ∧ isErr (call (f a) s).1 = false := by
  cases res with
  | error e => simp
  | ok a => simp

/-- A call whose error is returned, before a rest that succeeds or not whatever came before. -/
theorem isErr_call_perform_question_bind {g : Effect σ (Except ε α)}
    {f : α → Body σ (Except ε β) (Except ε β)} {p : Prop}
    (hf : ∀ a s, isErr (call (f a) s).1 = false ↔ p) (s : σ) :
    isErr (call (perform g >>= fun res => question res >>= f) s).1 = false ↔
      isErr (g s).1 = false ∧ p := by
  rw [call_perform_bind, isErr_call_question_bind]
  cases (g s).1 with
  | error e => simp
  | ok a => simp [hf]

end Run

/-! ### Quantities that a body keeps -/

section Keeps

variable {μ : σ → β} {b : Body σ R α}

/-- The body leaves the quantity as it was, however it ends. -/
def Keeps (μ : σ → β) (b : Body σ R α) : Prop := ∀ s, μ (b s).2 = μ s

theorem keeps_pure (a : α) : Keeps μ (pure a : Body σ R α) := fun _ => rfl

theorem keeps_ret (r : R) : Keeps μ (ret r : Body σ R α) := fun _ => rfl

theorem keeps_question {γ : Type} (res : Except ε α) :
    Keeps μ (question res : Body σ (Except ε γ) α) := by
  cases res with
  | ok a => exact keeps_pure a
  | error e => exact keeps_ret _

theorem keeps_act {f : σ → σ} (h : ∀ s, μ (f s) = μ s) : Keeps μ (act f : Body σ R Unit) := h

theorem keeps_perform {f : Effect σ α} (h : ∀ s, μ (f s).2 = μ s) :
    Keeps μ (perform f : Body σ R α) := h

theorem Keeps.bind {γ : Type} {f : α → Body σ R γ} (hb : Keeps μ b) (hf : ∀ a, Keeps μ (f a)) :
    Keeps μ (b >>= f) := by
  intro s
  rw [bind_apply]
  have hs := hb s
  cases h : b s with
  | mk c s' =>
    rw [h] at hs
    cases c with
    | normal a => exact (hf a s').trans hs
    | returned r => exact hs

theorem Keeps.call {b : Body σ R R} (hb : Keeps μ b) (s : σ) : μ (call b s).2 = μ s := by
  have hs := hb s
  unfold Body.call
  cases h : b s with
  | mk c s' =>
    rw [h] at hs
    cases c <;> exact hs

end Keeps

/-! ### Recording errors after a block -/

section Record

variable {b : Body σ R α} {record : σ → σ}

/-- The normal end of the block is never an error. -/
def EndsOk (b : Body σ R (Except ε α)) : Prop := ∀ s e, (b s).1 ≠ .normal (.error e)

theorem endsOk_ok (a : α) : EndsOk (pure (.ok a) : Body σ R (Except ε α)) := by
  intro s e h
  cases h

theorem endsOk_ret (r : R) : EndsOk (ret r : Body σ R (Except ε α)) := by
  intro s e h
  cases h

theorem endsOk_bind {f : α → Body σ R (Except ε β)} (hf : ∀ a, EndsOk (f a)) :
    EndsOk (b >>= f) := by
  intro s e
  rw [bind_apply]
  cases h : b s with
  | mk c s' =>
    cases c with
    | normal a => exact hf a s' e
    | returned r =>
      intro hr
      cases hr

/-- What records the errors a block ends in is dead code after a block that ends in none. -/
theorem EndsOk.recordErr_eq {b : Body σ (Except ε α) (Except ε α)} (hb : EndsOk b) :
    call (b >>= recordErr record) = call b := by
  funext s
  have hs := hb s
  unfold call
  rw [bind_apply]
  cases h : b s with
  | mk c s' =>
    rw [h] at hs
    match c with
    | .returned r => rfl
    | .normal (.ok a) => rfl
    | .normal (.error e) => exact absurd rfl (hs e)

/-- Errors are recorded where the block does not return. -/
theorem call_perform_recordErr (f : Effect σ (Except ε α)) (s : σ) :
    call (perform f >>= recordErr record) s =
      ((f s).1, if isErr (f s).1 then record (f s).2 else (f s).2) := by
  rw [call_perform_bind]
  cases (f s).1 <;> rfl

end Record

/-! ### Counters of errors -/

section Truthful

variable {μ : σ → ℕ} {f : Effect σ (Except ε α)}

/-- The counter increases during the call exactly if the call returns an error. -/
def Truthful (μ : σ → ℕ) (f : Effect σ (Except ε α)) (s : σ) : Prop :=
  μ s < μ (f s).2 ↔ isErr (f s).1 = true

/-- A counter that is left as it is tells the truth only about successes. -/
theorem truthful_iff_of_keeps {s : σ} (h : μ (f s).2 = μ s) :
    Truthful μ f s ↔ isErr (f s).1 = false := by
  unfold Truthful
  rw [h, iff_false_left (Nat.lt_irrefl _), Bool.not_eq_true]

/-- A counter that errors are recorded in where the block does not return. -/
theorem truthful_recordErr {record : σ → σ} (hf : ∀ s, μ (f s).2 = μ s)
    (hrecord : ∀ s, μ s < μ (record s)) (s : σ) :
    Truthful μ (call (perform f >>= recordErr record)) s := by
  unfold Truthful
  rw [call_perform_recordErr]
  by_cases h : isErr (f s).1 = true
  · have hlt : μ s < μ (record (f s).2) := by simpa only [hf s] using hrecord (f s).2
    simp [h, hlt]
  · simp [h, hf s]

end Truthful

end Body
