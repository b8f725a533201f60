import Mathlib.Algebra.Order.Floor.Semifield
import Mathlib.Data.Rat.Floor
import RelayerCore.Retry.Wait

/-!
# How far the two paths are independent

The delays of the first path never depend on the draws made on the turns of the second.  The second
path computes its next delay from the register of the first, so its delays do depend on the draws
of the first path, unless every one of them is zero, is cut at the maximum, or saturates.
-/

namespace RelayerCore
namespace Retry

open Saturating

/-! ### Jitter -/

/-- A factor that `random_range(0.5..1.5)` may draw. -/
def Drawn (r : ℚ) : Prop := 1 / 2 ≤ r ∧ r < 3 / 2

/-- `jitter`, with the factor drawn: the exact product, rounded down. -/
def jitter (r : ℚ) (durationMs : UInt64) : UInt64 := saturating ⌊(durationMs.toNat : ℚ) * r⌋₊

/-- The delays of one path among the first `n` items; the item `k` draws `draws k`. -/
def BackoffPairIterator.delays (self : BackoffPairIterator) (draws : ℕ → ℚ)
    (step : AlternationStep) (n : ℕ) : List Duration :=
  ((self.take (fun k => jitter (draws k)) n).filter (·.alterationStep = step)).map (·.duration)

/-- The delays of the path `step` depend on the draws of its own turns only. -/
def BackoffPairIterator.Independent (self : BackoffPairIterator) (step : AlternationStep) : Prop :=
  ∀ draws draws' : ℕ → ℚ, (∀ i, Drawn (draws i)) → (∀ i, Drawn (draws' i)) →
    (∀ i, turn i = step → draws i = draws' i) →
    ∀ n, self.delays draws step n = self.delays draws' step n

theorem toNat_le_u64Max (d : UInt64) : d.toNat ≤ u64Max := Nat.le_pred_of_lt d.toNat_lt

theorem floor_mul_half (d : ℕ) : ⌊(d : ℚ) * (1 / 2)⌋₊ = d / 2 := by
  have h : ⌊(d : ℚ) / (2 : ℕ)⌋₊ = d / 2 := Nat.floor_div_eq_div d 2
  rw [Nat.cast_ofNat] at h
  rw [mul_one_div, h]

theorem toNat_jitter (r : ℚ) (d : UInt64) :
    (jitter r d).toNat = sat u64Max ⌊(d.toNat : ℚ) * r⌋₊ := toNat_saturating _

theorem drawn_half : Drawn (1 / 2) := ⟨le_refl _, by norm_num⟩

theorem drawn_one : Drawn 1 := ⟨by norm_num, by norm_num⟩

theorem toNat_jitter_half (d : UInt64) : (jitter (1 / 2) d).toNat = d.toNat / 2 := by
  have h := toNat_le_u64Max d
  rw [toNat_jitter, floor_mul_half, sat_of_le (by omega)]

theorem jitter_one (d : UInt64) : jitter 1 d = d := by
  unfold jitter
  rw [mul_one, Nat.floor_natCast, saturating_toNat]

theorem jitter_zero (r : ℚ) : jitter r 0 = 0 := by
  have h : ⌊((0 : UInt64).toNat : ℚ) * r⌋₊ = 0 := by simp
  unfold jitter
  rw [h]
  rfl

/-- The jitter takes away at most half of a delay. -/
theorem half_le_jitter {r : ℚ} (hr : Drawn r) (d : UInt64) : d.toNat / 2 ≤ (jitter r d).toNat := by
  have h := toNat_le_u64Max d
  rw [toNat_jitter, le_sat_iff, ← floor_mul_half]
  constructor
  · exact Nat.floor_le_floor (mul_le_mul_of_nonneg_left hr.1 (Nat.cast_nonneg _))
  · rw [floor_mul_half]
    omega

/-- A factor that takes two different delays apart and leaves the smaller at half of itself. -/
theorem exists_drawn_apart {d d' : UInt64} (h : d.toNat < d'.toNat) :
    ∃ r, Drawn r ∧ (jitter r d).toNat ≤ d.toNat / 2 ∧ d.toNat / 2 < (jitter r d').toNat := by
  obtain ⟨n, hn⟩ : ∃ n, n = d.toNat := ⟨_, rfl⟩
  obtain ⟨m, hm⟩ : ∃ m, m = d'.toNat := ⟨_, rfl⟩
  rw [← hn, ← hm] at h
  have hpos : (0 : ℚ) < m := by exact_mod_cast (by omega : 0 < m)
  -- half of the larger delay, rounded up
  let k : ℕ := (m + 1) / 2
  have hk : m ≤ 2 * k ∧ 2 * k ≤ m + 1 := by
    show m ≤ 2 * ((m + 1) / 2) ∧ 2 * ((m + 1) / 2) ≤ m + 1
    omega
  have hkm : (m : ℚ) ≤ 2 * k ∧ (2 * k : ℚ) ≤ m + 1 := by exact_mod_cast hk
  have hlarge : ⌊(m : ℚ) * (k / m)⌋₊ = k := by
    rw [mul_div_cancel₀ _ hpos.ne', Nat.floor_natCast]
  have hsmall : ⌊(n : ℚ) * (k / m)⌋₊ ≤ n / 2 := by
    have hprod : 2 * (n * k) < 2 * ((n / 2 + 1) * m) := by
      calc 2 * (n * k) = n * (2 * k) := by ring
        _ ≤ n * (m + 1) := Nat.mul_le_mul_left n hk.2
        _ < (n + 1) * m := by linarith
        _ ≤ 2 * (n / 2 + 1) * m := Nat.mul_le_mul_right m (by omega)
        _ = 2 * ((n / 2 + 1) * m) := by ring
    apply Nat.le_of_lt_succ
    rw [Nat.succ_eq_add_one, Nat.floor_lt' (Nat.succ_ne_zero _), ← mul_div_assoc,
      div_lt_iff₀ hpos]
    exact_mod_cast (Nat.mul_lt_mul_left two_pos).mp hprod
  refine ⟨k / m, ⟨?_, ?_⟩, ?_, ?_⟩
  · rw [le_div_iff₀ hpos]
    linarith
  · rw [div_lt_iff₀ hpos]
    have hm1 : (1 : ℚ) ≤ m := by exact_mod_cast (by omega : 1 ≤ m)
    linarith
  · rw [toNat_jitter, ← hn]
    exact (min_le_left _ _).trans hsmall
  · have hle := toNat_le_u64Max d'
    rw [toNat_jitter, ← hn, ← hm, hlarge, sat_of_le (by omega)]
    omega

/-! ### The registers of the two paths -/

def BackoffPairIterator.register (self : BackoffPairIterator) : AlternationStep → UInt64
  | .first => self.currentFirstPathDelayMs
  | .second => self.currentSecondPathDelayMs

/-- The iterator after one turn of each path, with the factors drawn. -/
def BackoffPairIterator.round (self : BackoffPairIterator) (r s : ℚ) : BackoffPairIterator :=
  (self.next (jitter r)).2.next (jitter s) |>.2

/-- The iterator after `k` turns of each path. -/
def BackoffPairIterator.rounds (self : BackoffPairIterator) (draws : ℕ → ℚ) :
    ℕ → BackoffPairIterator
  | 0 => self
  | k + 1 => (self.rounds draws k).round (draws (2 * k)) (draws (2 * k + 1))

/-- The product of the register of the first path and the factor, before the jitter. -/
def BackoffPairIterator.product (self : BackoffPairIterator) : UInt64 :=
  saturatingMul self.currentFirstPathDelayMs self.factor.get

section Rounds

variable {self : BackoffPairIterator} {draws draws' : ℕ → ℚ} {r s : ℚ} {k n : ℕ}
  {step : AlternationStep}

/-- What a round does to an iterator whose next turn is that of the first path. -/
theorem round_eq (hpath : self.backoffPath = .first) (r s : ℚ) : self.round r s =
    { self with
      currentFirstPathDelayMs := jitter r self.product
      currentSecondPathDelayMs :=
        jitter s (saturatingMul (jitter r self.product) self.factor.get) } := by
  cases self
  cases hpath
  rfl

theorem rounds_succ' (self : BackoffPairIterator) (draws : ℕ → ℚ) (k : ℕ) :
    self.rounds draws (k + 1) =
      (self.round (draws 0) (draws 1)).rounds (fun i => draws (i + 2)) k := by
  induction k with
  | zero => rfl
  | succ k ih =>
    rw [BackoffPairIterator.rounds, ih]
    rfl

theorem backoffPath_rounds (hpath : self.backoffPath = .first) (k : ℕ) :
    (self.rounds draws k).backoffPath = .first := by
  induction k with
  | zero => exact hpath
  | succ k ih =>
    rw [BackoffPairIterator.rounds, round_eq ih]
    exact ih

theorem factor_rounds (hpath : self.backoffPath = .first) (k : ℕ) :
    (self.rounds draws k).factor = self.factor := by
  induction k with
  | zero => rfl
  | succ k ih =>
    rw [BackoffPairIterator.rounds, round_eq (backoffPath_rounds hpath k)]
    exact ih

theorem first_rounds_succ (hpath : self.backoffPath = .first) (k : ℕ) :
    (self.rounds draws (k + 1)).register .first =
      jitter (draws (2 * k)) (self.rounds draws k).product := by
  rw [BackoffPairIterator.rounds, round_eq (backoffPath_rounds hpath k)]
  rfl

/-- The second path takes its next delay from the register of the first. -/
theorem second_rounds_succ (hpath : self.backoffPath = .first) (k : ℕ) :
    (self.rounds draws (k + 1)).register .second =
      jitter (draws (2 * k + 1)) (self.rounds draws (k + 1)).product := by
  rw [BackoffPairIterator.rounds, round_eq (backoffPath_rounds hpath k)]
  rfl

/-- The next items of the two paths, then the items after the round. -/
theorem delays_add_two (hpath : self.backoffPath = .first) (draws : ℕ → ℚ)
    (step : AlternationStep) (n : ℕ) :
    self.delays draws step (n + 2) = self.cap (self.register step) ::
      (self.round (draws 0) (draws 1)).delays (fun i => draws (i + 2)) step n := by
  cases self
  cases hpath
  cases step <;> rfl

theorem cap_round (hpath : self.backoffPath = .first) (r s : ℚ) :
    (self.round r s).cap = self.cap := by
  rw [round_eq hpath]
  rfl

theorem turnsBefore_add_two (step : AlternationStep) (n : ℕ) :
    turnsBefore step (n + 2) = turnsBefore step n + 1 := by
  cases step
  · show (n + 2 + 1) / 2 = (n + 1) / 2 + 1
    omega
  · show (n + 2) / 2 = n / 2 + 1
    omega

/-- The delays of a path are its registers, cut at the maximum. -/
theorem delays_eq (hpath : self.backoffPath = .first) (draws : ℕ → ℚ) (step : AlternationStep)
    (n : ℕ) : self.delays draws step n = (List.range (turnsBefore step n)).map fun k =>
      self.cap ((self.rounds draws k).register step) := by
  induction n using Nat.twoStepInduction generalizing self draws with
  | zero => cases step <;> rfl
  | one =>
    cases self
    cases hpath
    cases step <;> rfl
  | more n ih _ =>
    have hround : (self.round (draws 0) (draws 1)).backoffPath = .first :=
      backoffPath_rounds hpath 1
    rw [delays_add_two hpath, ih hround, turnsBefore_add_two, List.range_succ_eq_map,
      List.map_cons, List.map_map, cap_round hpath]
    refine List.cons_eq_cons.mpr ⟨rfl, List.map_congr_left fun k _ => ?_⟩
    rw [Function.comp_apply, Nat.succ_eq_add_one, rounds_succ']

/-- Independence, delay by delay. -/
theorem independent_iff_registers (hpath : self.backoffPath = .first) : self.Independent step ↔
    ∀ draws draws' : ℕ → ℚ, (∀ i, Drawn (draws i)) → (∀ i, Drawn (draws' i)) →
      (∀ i, turn i = step → draws i = draws' i) → ∀ k,
      self.cap ((self.rounds draws k).register step) =
        self.cap ((self.rounds draws' k).register step) := by
  unfold BackoffPairIterator.Independent
  refine forall₅_congr fun draws draws' _ _ _ => ?_
  simp only [delays_eq hpath]
  constructor
  · intro h k
    have hk : k < turnsBefore step (2 * k + 2) := by
      rw [turnsBefore_add_two]
      cases step
      · show k < (2 * k + 1) / 2 + 1
        omega
      · show k < 2 * k / 2 + 1
        omega
    exact List.map_inj_left.mp (h (2 * k + 2)) k (List.mem_range.mpr hk)
  · intro h n
    exact List.map_congr_left fun k _ => h k

end Rounds

/-! ### The least register -/

/-- The least register that may follow the register `x`: half of the product. -/
def leastNext (f x : ℕ) : ℕ := mul u64Max x f / 2

section LeastNext

variable {f x y : ℕ}

theorem mul_mono (h : x ≤ y) : mul u64Max x f ≤ mul u64Max y f :=
  min_le_min_right _ (Nat.mul_le_mul_right f h)

theorem leastNext_mono (h : x ≤ y) : leastNext f x ≤ leastNext f y :=
  Nat.div_le_div_right (mul_mono h)

theorem leastNext_le (f x : ℕ) : leastNext f x ≤ u64Max / 2 :=
  Nat.div_le_div_right sat_le

/-- With a factor of two or more no register shrinks below itself, unless it is above half of the
largest. -/
theorem min_le_leastNext (hf : 2 ≤ f) (x : ℕ) : min x (u64Max / 2) ≤ leastNext f x := by
  have hx : x * 2 ≤ x * f := Nat.mul_le_mul_left x hf
  unfold leastNext mul sat
  omega

/-- Without growth the least register goes to zero. -/
theorem leastNext_one (hx : x ≤ u64Max) : leastNext 1 x = x / 2 := by
  unfold leastNext mul
  rw [mul_one, sat_of_le hx]

end LeastNext

/-- The registers of the second path show no trace of the draws of the first, cut at the maximum
`m`: `a` is the initial delay and `f` the factor. -/
def NoTrace (a f m : ℕ) : Prop :=
  a = 0 ∨ m = 0 ∨ (2 ≤ f ∧ m ≤ leastNext f (leastNext f a)) ∨ u64Max ≤ leastNext f a * f

section Registers

variable {self : BackoffPairIterator} {draws draws' : ℕ → ℚ} {a f m k : ℕ}

theorem toNat_product (self : BackoffPairIterator) : self.product.toNat =
    mul u64Max self.currentFirstPathDelayMs.toNat self.factor.get.toNat :=
  toNat_saturatingMul _ _

/-- The first path draws on its own turns. -/
theorem first_rounds_congr (hpath : self.backoffPath = .first)
    (h : ∀ i, turn i = .first → draws i = draws' i) (k : ℕ) :
    (self.rounds draws k).register .first = (self.rounds draws' k).register .first := by
  induction k with
  | zero => rfl
  | succ k ih =>
    have hfirst : (self.rounds draws k).currentFirstPathDelayMs =
        (self.rounds draws' k).currentFirstPathDelayMs := ih
    rw [first_rounds_succ hpath, first_rounds_succ hpath, h (2 * k) (turn_callSlot .first k),
      BackoffPairIterator.product, BackoffPairIterator.product, hfirst, factor_rounds hpath,
      factor_rounds hpath]

/-- The delays of the first path do not depend on the draws of the second. -/
theorem independent_first (hpath : self.backoffPath = .first) : self.Independent .first := by
  rw [independent_iff_registers hpath]
  intro draws draws' _ _ h k
  rw [first_rounds_congr hpath h]

/-- One round makes the register of the first path at least the least one. -/
theorem leastNext_le_first (hpath : self.backoffPath = .first) (hdraws : ∀ i, Drawn (draws i))
    (k : ℕ) : leastNext self.factor.get.toNat
        (self.rounds draws k).currentFirstPathDelayMs.toNat ≤
      (self.rounds draws (k + 1)).currentFirstPathDelayMs.toNat := by
  have hnext : (self.rounds draws (k + 1)).currentFirstPathDelayMs =
      jitter (draws (2 * k)) (self.rounds draws k).product := first_rounds_succ hpath k
  have hhalf := half_le_jitter (hdraws (2 * k)) (self.rounds draws k).product
  rw [toNat_product, factor_rounds hpath] at hhalf
  rw [hnext]
  exact hhalf

/-- Whenever the delays of the second path cannot be told apart by the least of them, they are the
same. -/
theorem cap_second_congr (hpath : self.backoffPath = .first) (hdraws : ∀ i, Drawn (draws i))
    (hdraws' : ∀ i, Drawn (draws' i)) (h : ∀ i, turn i = .second → draws i = draws' i)
    (hcap : (self.rounds draws (k + 1)).product = (self.rounds draws' (k + 1)).product ∨
      (self.maxDelayMs.toNat ≤ (self.rounds draws (k + 1)).product.toNat / 2 ∧
        self.maxDelayMs.toNat ≤ (self.rounds draws' (k + 1)).product.toNat / 2)) :
    self.cap ((self.rounds draws (k + 1)).register .second) =
      self.cap ((self.rounds draws' (k + 1)).register .second) := by
  rw [second_rounds_succ hpath, second_rounds_succ hpath]
  rcases hcap with hsame | ⟨hle, hle'⟩
  · rw [hsame, h (2 * k + 1) (turn_callSlot .second k)]
  · have hcut := hle.trans (half_le_jitter (hdraws (2 * k + 1)) _)
    have hcut' := hle'.trans (half_le_jitter (hdraws' (2 * k + 1)) _)
    rw [BackoffPairIterator.cap_eq, BackoffPairIterator.cap_eq, min_eq_left hcut,
      min_eq_left hcut']

/-! ### Parameters that leave no trace -/

theorem first_eq_zero (hpath : self.backoffPath = .first)
    (ha : self.currentFirstPathDelayMs = 0) (k : ℕ) :
    (self.rounds draws k).currentFirstPathDelayMs = 0 := by
  induction k with
  | zero => exact ha
  | succ k ih =>
    have hproduct : (self.rounds draws k).product = 0 := by
      apply UInt64.toNat_inj.mp
      rw [toNat_product, ih]
      simp [mul, sat]
    have hnext : (self.rounds draws (k + 1)).currentFirstPathDelayMs =
        jitter (draws (2 * k)) (self.rounds draws k).product := first_rounds_succ hpath k
    rwa [hproduct, jitter_zero] at hnext

theorem le_leastNext_first (hpath : self.backoffPath = .first) (hdraws : ∀ i, Drawn (draws i))
    (hf : 2 ≤ self.factor.get.toNat)
    (hm : m ≤ leastNext self.factor.get.toNat
      (leastNext self.factor.get.toNat self.currentFirstPathDelayMs.toNat)) (k : ℕ) :
    m ≤ leastNext self.factor.get.toNat
      (self.rounds draws (k + 1)).currentFirstPathDelayMs.toNat := by
  induction k with
  | zero => exact hm.trans (leastNext_mono (leastNext_le_first hpath hdraws 0))
  | succ k ih =>
    have hmax := ih.trans (leastNext_le _ _)
    calc m ≤ min (leastNext self.factor.get.toNat
          (self.rounds draws (k + 1)).currentFirstPathDelayMs.toNat) (u64Max / 2) :=
        le_min ih hmax
      _ ≤ leastNext self.factor.get.toNat (leastNext self.factor.get.toNat
          (self.rounds draws (k + 1)).currentFirstPathDelayMs.toNat) := min_le_leastNext hf _
      _ ≤ _ := leastNext_mono (leastNext_le_first hpath hdraws (k + 1))

/-- Once a product saturates they all do: the factor is then three or more. -/
theorem saturated_first (hpath : self.backoffPath = .first) (hdraws : ∀ i, Drawn (draws i))
    (h : u64Max ≤ leastNext self.factor.get.toNat self.currentFirstPathDelayMs.toNat *
      self.factor.get.toNat) (k : ℕ) :
    u64Max ≤ (self.rounds draws (k + 1)).currentFirstPathDelayMs.toNat *
      self.factor.get.toNat := by
  have hleast := leastNext_le self.factor.get.toNat self.currentFirstPathDelayMs.toNat
  have hfactor : 3 ≤ self.factor.get.toNat := by
    by_contra hlt
    have hle := Nat.mul_le_mul hleast (Nat.le_of_lt_succ (Nat.lt_of_not_le hlt))
    exact absurd (h.trans hle) (by decide)
  induction k with
  | zero => exact h.trans (Nat.mul_le_mul_right _ (leastNext_le_first hpath hdraws 0))
  | succ k ih =>
    have hhalf : leastNext self.factor.get.toNat
        (self.rounds draws (k + 1)).currentFirstPathDelayMs.toNat = u64Max / 2 := by
      unfold leastNext mul
      rw [sat_of_ge ih]
    have hnext := leastNext_le_first hpath hdraws (k + 1)
    rw [hhalf] at hnext
    have hmax : u64Max ≤ u64Max / 2 * 3 := by decide
    exact hmax.trans (Nat.mul_le_mul hnext hfactor)

theorem independent_second (hpath : self.backoffPath = .first)
    (h : NoTrace self.currentFirstPathDelayMs.toNat self.factor.get.toNat self.maxDelayMs.toNat) :
    self.Independent .second := by
  rw [independent_iff_registers hpath]
  intro draws draws' hdraws hdraws' hsecond k
  cases k with
  | zero => rfl
  | succ k =>
    apply cap_second_congr hpath hdraws hdraws' hsecond
    rcases h with ha | hm | ⟨hf, hm⟩ | hsat
    · have hzero : self.currentFirstPathDelayMs = 0 := UInt64.toNat_inj.mp ha
      left
      unfold BackoffPairIterator.product
      rw [first_eq_zero hpath hzero, first_eq_zero hpath hzero, factor_rounds hpath,
        factor_rounds hpath]
    · right
      rw [hm]
      exact ⟨Nat.zero_le _, Nat.zero_le _⟩
    · right
      rw [toNat_product, toNat_product, factor_rounds hpath, factor_rounds hpath]
      exact ⟨le_leastNext_first hpath hdraws hf hm k, le_leastNext_first hpath hdraws' hf hm k⟩
    · left
      apply UInt64.toNat_inj.mp
      rw [toNat_product, toNat_product, factor_rounds hpath, factor_rounds hpath, mul, mul,
        sat_of_ge (saturated_first hpath hdraws hsat k),
        sat_of_ge (saturated_first hpath hdraws' hsat k)]

/-! ### Parameters that leave a trace -/

theorem cap_inj {x y : UInt64} : self.cap x = self.cap y ↔
    min self.maxDelayMs.toNat x.toNat = min self.maxDelayMs.toNat y.toNat := by
  rw [BackoffPairIterator.cap_eq, BackoffPairIterator.cap_eq]
  refine ⟨fun h => ?_, fun h => by rw [h]⟩
  have hnanos := congrArg Duration.nanos h
  rw [Duration.nanos_fromMillis, Duration.nanos_fromMillis, toNat_saturating, toNat_saturating,
    sat_of_le ((min_le_left _ _).trans (toNat_le_u64Max _)),
    sat_of_le ((min_le_left _ _).trans (toNat_le_u64Max _))] at hnanos
  exact Nat.eq_of_mul_eq_mul_right (by norm_num) hnanos

/-- Two products that differ, the smaller of which is not cut. -/
theorem not_independent_second (hpath : self.backoffPath = .first)
    (hdraws : ∀ i, Drawn (draws i)) (hdraws' : ∀ i, Drawn (draws' i))
    (hlt : (self.rounds draws (k + 1)).product.toNat < (self.rounds draws' (k + 1)).product.toNat)
    (hcut : (self.rounds draws (k + 1)).product.toNat / 2 < self.maxDelayMs.toNat) :
    ¬ self.Independent .second := by
  obtain ⟨s, hs, hle, hgt⟩ := exists_drawn_apart hlt
  rw [independent_iff_registers hpath]
  intro h
  -- the second path draws `s` in both runs
  let drawing : (ℕ → ℚ) → ℕ → ℚ := fun ρ i => if turn i = .second then s else ρ i
  have hdrawn : ∀ ρ, (∀ i, Drawn (ρ i)) → ∀ i, Drawn (drawing ρ i) := by
    intro ρ hρ i
    show Drawn (if turn i = .second then s else ρ i)
    split_ifs
    · exact hs
    · exact hρ i
  have hproduct : ∀ ρ, (self.rounds (drawing ρ) (k + 1)).product =
      (self.rounds ρ (k + 1)).product := by
    intro ρ
    have hdrawing : ∀ i, turn i = .first → drawing ρ i = ρ i := by
      intro i hi
      apply if_neg
      rw [hi]
      exact AlternationStep.noConfusion
    have hregister : (self.rounds (drawing ρ) (k + 1)).currentFirstPathDelayMs =
      (self.rounds ρ (k + 1)).currentFirstPathDelayMs := first_rounds_congr hpath hdrawing (k + 1)
    unfold BackoffPairIterator.product
    rw [hregister, factor_rounds hpath, factor_rounds hpath]
  have hsecond : ∀ ρ, (self.rounds (drawing ρ) (k + 1)).register .second =
      jitter s (self.rounds ρ (k + 1)).product := by
    intro ρ
    rw [second_rounds_succ hpath, hproduct]
    exact congrArg (jitter · _) (if_pos (turn_callSlot .second k))
  have hagree : ∀ i, turn i = .second → drawing draws i = drawing draws' i := by
    intro i hi
    exact (if_pos hi).trans (if_pos hi).symm
  have hcaps := h (drawing draws) (drawing draws') (hdrawn draws hdraws) (hdrawn draws' hdraws')
    hagree (k + 1)
  rw [hsecond, hsecond, cap_inj] at hcaps
  omega

theorem first_rounds_half_succ (hpath : self.backoffPath = .first) (k : ℕ) :
    (self.rounds (fun _ => 1 / 2) (k + 1)).currentFirstPathDelayMs.toNat =
      leastNext self.factor.get.toNat
        (self.rounds (fun _ => 1 / 2) k).currentFirstPathDelayMs.toNat := by
  have hnext : (self.rounds (fun _ => 1 / 2) (k + 1)).currentFirstPathDelayMs =
      jitter (1 / 2) (self.rounds (fun _ => 1 / 2) k).product := first_rounds_succ hpath k
  have hnat := congrArg UInt64.toNat hnext
  rw [toNat_jitter_half, toNat_product, factor_rounds hpath] at hnat
  exact hnat

theorem first_rounds_one_succ (hpath : self.backoffPath = .first) (k : ℕ) :
    (self.rounds (fun _ => 1) (k + 1)).currentFirstPathDelayMs.toNat =
      mul u64Max (self.rounds (fun _ => 1) k).currentFirstPathDelayMs.toNat
        self.factor.get.toNat := by
  have hnext : (self.rounds (fun _ => 1) (k + 1)).currentFirstPathDelayMs =
      jitter 1 (self.rounds (fun _ => 1) k).product := first_rounds_succ hpath k
  rw [jitter_one] at hnext
  have hnat := congrArg UInt64.toNat hnext
  rw [toNat_product, factor_rounds hpath] at hnat
  exact hnat

/-- Without growth, halving every time brings the first path to zero, and never jittering keeps it
where it began. -/
theorem first_rounds_of_factor_one (hpath : self.backoffPath = .first)
    (hf : self.factor.get.toNat = 1) (k : ℕ) :
    (self.rounds (fun _ => 1 / 2) k).currentFirstPathDelayMs.toNat ≤
        self.currentFirstPathDelayMs.toNat - k ∧
      (self.rounds (fun _ => 1) k).currentFirstPathDelayMs.toNat =
        self.currentFirstPathDelayMs.toNat := by
  induction k with
  | zero => exact ⟨le_refl _, rfl⟩
  | succ k ih =>
    constructor
    · rw [first_rounds_half_succ hpath, hf, leastNext_one (toNat_le_u64Max _)]
      have := ih.1
      omega
    · rw [first_rounds_one_succ hpath, hf, mul, mul_one, sat_of_le (toNat_le_u64Max _)]
      exact ih.2

theorem noTrace_of_independent (hpath : self.backoffPath = .first)
    (h : self.Independent .second) :
    NoTrace self.currentFirstPathDelayMs.toNat self.factor.get.toNat self.maxDelayMs.toNat := by
  have hhalf : ∀ i : ℕ, Drawn ((fun _ => 1 / 2 : ℕ → ℚ) i) := fun _ => drawn_half
  have hone : ∀ i : ℕ, Drawn ((fun _ => 1 : ℕ → ℚ) i) := fun _ => drawn_one
  have hfpos := self.factor.pos
  by_contra hno
  obtain ⟨ha, hm, hcut, hsat⟩ : self.currentFirstPathDelayMs.toNat ≠ 0 ∧
      self.maxDelayMs.toNat ≠ 0 ∧
      (2 ≤ self.factor.get.toNat → leastNext self.factor.get.toNat (leastNext
        self.factor.get.toNat self.currentFirstPathDelayMs.toNat) < self.maxDelayMs.toNat) ∧
      leastNext self.factor.get.toNat self.currentFirstPathDelayMs.toNat *
        self.factor.get.toNat < u64Max := by
    simpa only [NoTrace, not_or, not_and, not_le] using hno
  rcases Nat.lt_or_ge self.factor.get.toNat 2 with hf | hf
  · -- the first path may have gone to zero
    have hf1 : self.factor.get.toNat = 1 := by omega
    obtain ⟨k, hk⟩ : ∃ k, self.currentFirstPathDelayMs.toNat = k + 1 :=
      Nat.exists_eq_succ_of_ne_zero ha
    have hrounds := first_rounds_of_factor_one hpath hf1 (k + 1)
    rw [hk, Nat.sub_self, Nat.le_zero] at hrounds
    have hproduct : (self.rounds (fun _ => 1 / 2) (k + 1)).product.toNat = 0 := by
      rw [toNat_product, hrounds.1, mul, Nat.zero_mul]
      exact sat_of_le (Nat.zero_le _)
    have hproduct' : (self.rounds (fun _ => 1) (k + 1)).product.toNat = k + 1 := by
      have hle := toNat_le_u64Max self.currentFirstPathDelayMs
      rw [toNat_product, hrounds.2, factor_rounds hpath, hf1, mul, mul_one]
      exact sat_of_le (hk ▸ hle)
    refine not_independent_second (k := k) hpath hhalf hone ?_ ?_ h
    · rw [hproduct, hproduct']
      exact Nat.succ_pos k
    · rw [hproduct]
      exact Nat.pos_of_ne_zero hm
  · -- the first draw alone takes the second delays apart
    have hx : 0 < mul u64Max self.currentFirstPathDelayMs.toNat self.factor.get.toNat :=
      le_sat_iff.mpr ⟨Nat.mul_pos (Nat.pos_of_ne_zero ha) hfpos, by decide⟩
    have hleast : leastNext self.factor.get.toNat self.currentFirstPathDelayMs.toNat <
        mul u64Max self.currentFirstPathDelayMs.toNat self.factor.get.toNat :=
      Nat.div_lt_self hx one_lt_two
    have hproduct : (self.rounds (fun _ => 1 / 2) 1).product.toNat =
        leastNext self.factor.get.toNat self.currentFirstPathDelayMs.toNat *
          self.factor.get.toNat := by
      rw [toNat_product, first_rounds_half_succ hpath, factor_rounds hpath]
      exact sat_of_le hsat.le
    have hproduct' : (self.rounds (fun _ => 1) 1).product.toNat =
        mul u64Max (mul u64Max self.currentFirstPathDelayMs.toNat self.factor.get.toNat)
          self.factor.get.toNat := by
      rw [toNat_product, first_rounds_one_succ hpath, factor_rounds hpath]
      rfl
    refine not_independent_second (k := 0) hpath hhalf hone ?_ ?_ h
    · rw [hproduct, hproduct']
      exact lt_min (Nat.mul_lt_mul_of_pos_right hleast hfpos) hsat
    · have hleast' : leastNext self.factor.get.toNat (leastNext self.factor.get.toNat
          self.currentFirstPathDelayMs.toNat) = leastNext self.factor.get.toNat
            self.currentFirstPathDelayMs.toNat * self.factor.get.toNat / 2 :=
        congrArg (· / 2) (sat_of_le hsat.le)
      rw [hproduct, ← hleast']
      exact hcut hf

end Registers

/-! ### The two paths -/

/-- The two paths back off independently exactly when no delay of the second shows a draw of the
first: the initial delay or the maximum is under a millisecond, or the factor is at least two and
already the least second delay is cut, or every product saturates. -/
theorem independent_iff (initialDelay : Duration) (factor : NonZeroU64) (maxDelay : Duration) :
    (∀ step, (BackoffPairIterator.new initialDelay factor maxDelay).Independent step) ↔
      NoTrace (sat u64Max initialDelay.asMillis) factor.get.toNat
        (sat u64Max maxDelay.asMillis) := by
  rw [← toNat_saturating, ← toNat_saturating]
  constructor
  · exact fun h => noTrace_of_independent rfl (h .second)
  · rintro h (_ | _)
    · exact independent_first rfl
    · exact independent_second rfl h

/-- A second, doubled up to a minute: the first draw of the first path decides between one and two
seconds for the second. -/
theorem second_path_shows_first_draw :
    ¬ ∀ step, (BackoffPairIterator.new (Duration.fromMillis 1000) ⟨2, by decide⟩
      (Duration.fromMillis 60000)).Independent step := by
  intro h
  have hdraws := h .second (fun _ => 1 / 2) (fun i => if i = 0 then 1 else 1 / 2)
    (fun _ => drawn_half)
    (fun i => by split_ifs <;> first | exact drawn_one | exact drawn_half)
    (fun i hi => (if_neg (fun h0 => by subst h0; cases hi)).symm) 4
  revert hdraws
  decide +kernel

end Retry
end RelayerCore
