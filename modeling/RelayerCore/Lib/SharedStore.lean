import RelayerCore.Lib.Machine

/-!
# Parties with a common store

Each party reads and writes one cell of a common store.  What a step makes of the party's own state
does not depend on the value it reads; it may show that value to the outside.  A run is compared
with the run of one party alone: the party shows the same in both exactly if, whenever it shows
something, its cell holds what the party itself wrote last, as far as that can be seen.
-/

namespace SharedStore

open Machine

variable {ι κ σ α ν ω : Type*} [DecidableEq ι] [DecidableEq κ]

/-- A party: its cell, what a step makes of its state and writes, and what it shows of the value
in its cell. -/
structure Party (κ σ α ν ω : Type*) where
  cell : κ
  act : σ → α → Option (σ × Option ν)
  shows : σ → α → Option (ν → ω)

/-- The store and the parties: their states, what each wrote last (at first, what it found), and
what it has shown, the latest first. -/
structure State (ι κ σ ν ω : Type*) where
  store : κ → ν
  locals : ι → σ
  own : ι → ν
  shown : ι → List ω

/-- A party starts from its cell. -/
def init (party : ι → Party κ σ α ν ω) (store : κ → ν) (locals : ι → σ) : State ι κ σ ν ω where
  store := store
  locals := locals
  own i := store (party i).cell
  shown _ := []

/-- Party `i` moves on to `l` and writes `w`. -/
def State.move (s : State ι κ σ ν ω) (p : Party κ σ α ν ω) (i : ι) (a : α) (l : σ)
    (w : Option ν) : State ι κ σ ν ω where
  store := w.elim s.store (Function.update s.store p.cell)
  locals := Function.update s.locals i l
  own := w.elim s.own (Function.update s.own i)
  shown := Function.update s.shown i
    (((p.shows (s.locals i) a).map (· (s.store p.cell))).toList ++ s.shown i)

/-- A label says who moves, and how. -/
def step (party : ι → Party κ σ α ν ω) (s : State ι κ σ ν ω) (a : ι × α) :
    Option (State ι κ σ ν ω) :=
  ((party a.1).act (s.locals a.1) a.2).map fun r => s.move (party a.1) a.1 a.2 r.1 r.2

/-- What the party shows is what it would show of the value it wrote itself. -/
def ShowsOwn (party : ι → Party κ σ α ν ω) (i : ι) (s : State ι κ σ ν ω) (a : ι × α) : Prop :=
  a.1 = i → ((party i).shows (s.locals i) a.2).map (· (s.store (party i).cell)) =
    ((party i).shows (s.locals i) a.2).map (· (s.own i))

/-- The labels of one party, in order. -/
def labelsOf (i : ι) (tr : List (State ι κ σ ν ω × (ι × α))) : List (ι × α) :=
  ((tr.map Prod.snd).filter (·.1 = i)).reverse

/-- The party alone stands where it stands among the others. -/
structure Alone (party : ι → Party κ σ α ν ω) (i : ι) (s s' : State ι κ σ ν ω) : Prop where
  locals : s'.locals i = s.locals i
  own : s'.own i = s.own i
  store : s'.store (party i).cell = s.own i

variable {party : ι → Party κ σ α ν ω} {i : ι} {s s' s₁ : State ι κ σ ν ω} {a : ι × α}

theorem step_eq_some : step party s a = some s₁ ↔
    ∃ l w, (party a.1).act (s.locals a.1) a.2 = some (l, w) ∧
      s₁ = s.move (party a.1) a.1 a.2 l w := by
  unfold step
  rw [Option.map_eq_some_iff]
  constructor
  · rintro ⟨⟨l, w⟩, hact, rfl⟩
    exact ⟨l, w, hact, rfl⟩
  · rintro ⟨l, w, hact, rfl⟩
    exact ⟨(l, w), hact, rfl⟩

/-! ### One step -/

section Move

variable (s) (p : Party κ σ α ν ω) (b : α) (l : σ) (w : Option ν)

@[simp] theorem locals_move_self : (s.move p i b l w).locals i = l := Function.update_self ..

@[simp] theorem own_move_self : (s.move p i b l w).own i = w.getD (s.own i) := by
  cases w with
  | none => rfl
  | some x => exact Function.update_self ..

@[simp] theorem store_move_cell : (s.move p i b l w).store p.cell = w.getD (s.store p.cell) := by
  cases w with
  | none => rfl
  | some x => exact Function.update_self ..

@[simp] theorem shown_move_self : (s.move p i b l w).shown i =
    ((p.shows (s.locals i) b).map (· (s.store p.cell))).toList ++ s.shown i :=
  Function.update_self ..

theorem locals_move_of_ne {j : ι} (h : i ≠ j) : (s.move p j b l w).locals i = s.locals i :=
  Function.update_of_ne h ..

theorem own_move_of_ne {j : ι} (h : i ≠ j) : (s.move p j b l w).own i = s.own i := by
  cases w with
  | none => rfl
  | some x => exact Function.update_of_ne h ..

theorem shown_move_of_ne {j : ι} (h : i ≠ j) : (s.move p j b l w).shown i = s.shown i :=
  Function.update_of_ne h ..

theorem store_move_of_ne {k : κ} (h : k ≠ p.cell) : (s.move p i b l w).store k = s.store k := by
  cases w with
  | none => rfl
  | some x => exact Function.update_of_ne h ..

end Move

/-- The others do not touch what is a party's own. -/
theorem Alone.step_other (h : Alone party i s s') (ha : i ≠ a.1) (hs : step party s a = some s₁) :
    Alone party i s₁ s' ∧ s₁.shown i = s.shown i := by
  obtain ⟨l, w, -, rfl⟩ := step_eq_some.mp hs
  refine ⟨⟨?_, ?_, ?_⟩, shown_move_of_ne _ _ _ _ _ ha⟩
  · rw [locals_move_of_ne _ _ _ _ _ ha, h.locals]
  · rw [own_move_of_ne _ _ _ _ _ ha, h.own]
  · rw [own_move_of_ne _ _ _ _ _ ha, h.store]

/-- A step of the party is possible alone as well, and shows the same exactly if it shows its
own. -/
theorem Alone.step_self (h : Alone party i s s') (ha : i = a.1) (hs : step party s a = some s₁)
    (hlen : (s'.shown i).length = (s.shown i).length) :
    ∃ s₁', step party s' a = some s₁' ∧ Alone party i s₁ s₁' ∧
      (s₁'.shown i).length = (s₁.shown i).length ∧
      (s₁'.shown i = s₁.shown i ↔ ShowsOwn party i s a ∧ s'.shown i = s.shown i) := by
  subst ha
  obtain ⟨l, w, hact, rfl⟩ := step_eq_some.mp hs
  have hact' : (party a.1).act (s'.locals a.1) a.2 = some (l, w) := by
    rw [h.locals]
    exact hact
  refine ⟨_, step_eq_some.mpr ⟨l, w, hact', rfl⟩, ⟨?_, ?_, ?_⟩, ?_, ?_⟩
  · rw [locals_move_self, locals_move_self]
  · rw [own_move_self, own_move_self, h.own]
  · rw [store_move_cell, own_move_self, h.store]
  · rw [shown_move_self, shown_move_self, h.locals]
    cases (party a.1).shows (s.locals a.1) a.2 with
    | none => exact hlen
    | some f => exact congrArg (· + 1) hlen
  · rw [shown_move_self, shown_move_self, h.locals, h.store]
    unfold ShowsOwn
    cases (party a.1).shows (s.locals a.1) a.2 with
    | none => simp
    | some f => simp [eq_comm]

/-! ### Runs -/

/-- **A party shows alone what it shows among the others exactly if it always shows its own.** -/
theorem alone_shows_same_iff {store : κ → ν} {locals : ι → σ}
    {tr : List (State ι κ σ ν ω × (ι × α))}
    (h : Run (ofFn (step party)) (init party store locals) tr s)
    (i : ι) : ∃ s', exec (step party) (init party store locals) (labelsOf i tr) = some s' ∧
      Alone party i s s' ∧ (s'.shown i).length = (s.shown i).length ∧
      (s'.shown i = s.shown i ↔ ∀ p ∈ tr, ShowsOwn party i p.1 p.2) := by
  induction h with
  | nil => exact ⟨_, rfl, ⟨rfl, rfl, rfl⟩, rfl, by simp⟩
  | @snoc tr s s₁ a _ hs ih =>
    obtain ⟨s', hexec, halone, hlen, hiff⟩ := ih
    by_cases ha : i = a.1
    · obtain ⟨s₁', hs', halone', hlen', hiff'⟩ := halone.step_self ha hs hlen
      refine ⟨s₁', ?_, halone', hlen', ?_⟩
      · have hlabels : labelsOf i ((s, a) :: tr) = labelsOf i tr ++ [a] := by
          simp [labelsOf, ha.symm]
        rw [hlabels, exec_concat, hexec]
        exact hs'
      · rw [hiff', hiff, List.forall_mem_cons]
    · obtain ⟨halone', hshown⟩ := halone.step_other ha hs
      refine ⟨s', ?_, halone', ?_, ?_⟩
      · have hlabels : labelsOf i ((s, a) :: tr) = labelsOf i tr := by
          simp [labelsOf, Ne.symm ha]
        rw [hlabels]
        exact hexec
      · rw [hshown]
        exact hlen
      · rw [hshown, hiff, List.forall_mem_cons]
        exact (and_iff_right fun h => absurd h.symm ha).symm

/-- A cell that nobody else writes holds what its party wrote last. -/
theorem showsOwn_of_private {store : κ → ν} {locals : ι → σ}
    (hcell : ∀ j, j ≠ i → (party j).cell ≠ (party i).cell)
    (h : Reach (ofFn (step party)) (init party store locals) s) (a : ι × α) :
    ShowsOwn party i s a := by
  have hstore : s.store (party i).cell = s.own i := by
    refine h.invariant (p := fun s => s.store (party i).cell = s.own i) rfl ?_
    intro s a s₁ hinv hs
    obtain ⟨l, w, -, rfl⟩ := step_eq_some.mp hs
    by_cases ha : i = a.1
    · subst ha
      rw [store_move_cell, own_move_self, hinv]
    · rw [store_move_of_ne _ _ _ _ _ (hcell _ (Ne.symm ha)).symm, own_move_of_ne _ _ _ _ _ ha, hinv]
  intro _
  rw [hstore]

/-- A party with a cell of its own shows what it shows alone. -/
theorem alone_shows_same_of_private {store : κ → ν} {locals : ι → σ}
    {tr : List (State ι κ σ ν ω × (ι × α))}
    (h : Run (ofFn (step party)) (init party store locals) tr s)
    (hcell : ∀ j, j ≠ i → (party j).cell ≠ (party i).cell) :
    ∃ s', exec (step party) (init party store locals) (labelsOf i tr) = some s' ∧
      s'.shown i = s.shown i := by
  obtain ⟨s', hexec, -, -, hiff⟩ := alone_shows_same_iff h i
  exact ⟨s', hexec, hiff.mpr fun p hp => showsOwn_of_private hcell (h.reach_of_mem hp) p.2⟩

end SharedStore
