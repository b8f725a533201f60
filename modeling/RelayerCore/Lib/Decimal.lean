import Mathlib.Tactic

/-!
# Decimal notation of integers

`Int.repr` writes a sign and digits; `parse` reads them back, and also accepts a leading `+` and
leading zeros.  `parseUnsigned` reads a bounded number digit by digit.
-/

namespace Decimal

/-- A nonempty string of digits. -/
def parseDigits (cs : List Char) : Option ℕ :=
  if cs ≠ [] ∧ cs.all Char.isDigit = true then some (Nat.ofDigitChars 10 cs 0) else none

/-- A string of digits behind an optional sign. -/
def parse (s : String) : Option ℤ :=
  match s.toList with
  | '-' :: cs => (parseDigits cs).map fun n : ℕ => -(n : ℤ)
  | '+' :: cs => (parseDigits cs).map fun n : ℕ => (n : ℤ)
  | cs => (parseDigits cs).map fun n : ℕ => (n : ℤ)

theorem parseDigits_toDigits (n : ℕ) : parseDigits (Nat.toDigits 10 n) = some n := by
  have hdigits : ∀ c ∈ Nat.toDigits 10 n, c.isDigit = true := fun c hc =>
    Nat.isDigit_of_mem_toDigits (by decide) (by decide) hc
  unfold parseDigits
  rw [if_pos ⟨Nat.toDigits_ne_nil, List.all_eq_true.mpr hdigits⟩,
    Nat.ofDigitChars_toDigits (by decide) (by decide)]

theorem parse_repr_nat (n : ℕ) : parse n.repr = some (n : ℤ) := by
  have hdigits := parseDigits_toDigits n
  unfold parse
  rw [Nat.toList_repr]
  -- the first character is a digit, so no sign
  split
  · rename_i cs h
    have hc : ('-').isDigit = true :=
      Nat.isDigit_of_mem_toDigits (by decide) (by decide) (h ▸ List.mem_cons_self)
    cases hc
  · rename_i cs h
    have hc : ('+').isDigit = true :=
      Nat.isDigit_of_mem_toDigits (by decide) (by decide) (h ▸ List.mem_cons_self)
    cases hc
  · rw [hdigits]
    rfl

/-- What is written is read back. -/
theorem parse_repr (k : ℤ) : parse k.repr = some k := by
  cases k with
  | ofNat n => exact parse_repr_nat n
  | negSucc n =>
    have hlist : (Int.repr (.negSucc n)).toList = '-' :: Nat.toDigits 10 (n + 1) := by
      show ("-" ++ (n + 1).repr).toList = _
      simp
    unfold parse
    rw [hlist]
    show (parseDigits (Nat.toDigits 10 (n + 1))).map _ = _
    rw [parseDigits_toDigits]
    rfl

/-- A number below a power of ten has at most so many digits, and perhaps a sign. -/
theorem length_repr_le {k : ℤ} {d : ℕ} (hd : 0 < d) (h : k.natAbs < 10 ^ d) :
    k.repr.length ≤ d + 1 := by
  cases k with
  | ofNat n => exact le_trans ((Nat.length_repr_le_iff hd).mpr h) (Nat.le_succ d)
  | negSucc n =>
    have hlen : (n + 1).repr.length ≤ d := (Nat.length_repr_le_iff hd).mpr h
    show ("-" ++ (n + 1).repr).length ≤ d + 1
    rw [String.length_append]
    show 1 + _ ≤ _
    omega

/-! ### Leading zeros -/

section Zeros

variable {cs : List Char} {c : Char}

theorem digitChar_of_isDigit (h : c.isDigit = true) :
    (c.toNat - '0'.toNat) < 10 ∧ (c.toNat - '0'.toNat).digitChar = c := by
  have hrange : 48 ≤ c.toNat ∧ c.toNat ≤ 57 := by
    simpa [Char.isDigit, UInt32.le_iff_toNat_le] using h
  have hdigits : ∀ n < 10, (Nat.digitChar n).toNat = n + 48 := by decide
  have hlt : c.toNat - '0'.toNat < 10 := by
    show c.toNat - 48 < 10
    omega
  refine ⟨hlt, Char.toNat_inj.mp ?_⟩
  rw [hdigits _ hlt]
  show c.toNat - 48 + 48 = c.toNat
  omega

/-- A string of digits is the number it stands for, behind some zeros. -/
theorem exists_zeros (hne : cs ≠ []) (hdigits : ∀ c ∈ cs, c.isDigit = true) :
    ∃ zeros, cs = List.replicate zeros '0' ++ Nat.toDigits 10 (Nat.ofDigitChars 10 cs 0) := by
  induction cs using List.reverseRecOn with
  | nil => exact absurd rfl hne
  | append_singleton cs c ih =>
    obtain ⟨hlt, hchar⟩ := digitChar_of_isDigit (hdigits c (by simp))
    rw [Nat.ofDigitChars_append, Nat.ofDigitChars_cons, Nat.ofDigitChars_nil]
    by_cases hnil : cs = []
    · subst hnil
      refine ⟨0, ?_⟩
      rw [Nat.ofDigitChars_nil, Nat.mul_zero, Nat.zero_add, Nat.toDigits_of_lt_base hlt, hchar]
      rfl
    · obtain ⟨zeros, hzeros⟩ := ih hnil fun c hc => hdigits c (List.mem_append_left _ hc)
      rcases Nat.eq_zero_or_pos (Nat.ofDigitChars 10 cs 0) with hzero | hpos
      · -- the digits so far are zeros
        rw [hzero, Nat.toDigits_zero] at hzeros
        refine ⟨zeros + 1, ?_⟩
        rw [hzero, Nat.mul_zero, Nat.zero_add, Nat.toDigits_of_lt_base hlt, hchar,
          List.replicate_succ', ← hzeros]
      · refine ⟨zeros, ?_⟩
        rw [← Nat.toDigits_append_toDigits (by decide) hpos hlt, Nat.toDigits_of_lt_base hlt, hchar,
          ← List.append_assoc, ← hzeros]

theorem isDigit_of_mem_zeros {zeros n : ℕ}
    (hc : c ∈ List.replicate zeros '0' ++ Nat.toDigits 10 n) : c.isDigit = true := by
  rcases List.mem_append.mp hc with hc | hc
  · rw [List.eq_of_mem_replicate hc]
    rfl
  · exact Nat.isDigit_of_mem_toDigits (by decide) (by decide) hc

theorem zeros_ne_nil (zeros n : ℕ) : List.replicate zeros '0' ++ Nat.toDigits 10 n ≠ [] :=
  List.append_ne_nil_of_right_ne_nil _ Nat.toDigits_ne_nil

theorem plus_cons_ne_zeros (cs : List Char) (zeros n : ℕ) :
    '+' :: cs ≠ List.replicate zeros '0' ++ Nat.toDigits 10 n := by
  intro h
  have hdigit : ('+').isDigit = true := isDigit_of_mem_zeros (h ▸ List.mem_cons_self)
  cases hdigit

end Zeros

/-! ### Numerals -/

/-- A numeral of a natural number: `0`, or digits that do not begin with `0`. -/
def isNatNumeral : List Char → Bool
  | [] => false
  | c :: cs => c.isDigit && cs.all Char.isDigit && (c != '0' || cs.isEmpty)

/-- A numeral of an integer: one of a natural number, or of a positive one behind `-`. -/
def isNumeral : List Char → Bool
  | '-' :: cs => isNatNumeral cs && cs != ['0']
  | cs => isNatNumeral cs

/-- Digits behind an optional sign. -/
def isSigned : List Char → Bool
  | '-' :: cs => !cs.isEmpty && cs.all Char.isDigit
  | '+' :: cs => !cs.isEmpty && cs.all Char.isDigit
  | cs => !cs.isEmpty && cs.all Char.isDigit

/-- What digits behind an optional sign stand for. -/
def value : List Char → ℤ
  | '-' :: cs => -(Nat.ofDigitChars 10 cs 0 : ℤ)
  | '+' :: cs => (Nat.ofDigitChars 10 cs 0 : ℤ)
  | cs => (Nat.ofDigitChars 10 cs 0 : ℤ)

section Numerals

variable {s : String} {cs : List Char} {n : ℕ} {k : ℤ}

theorem parseDigits_eq (cs : List Char) : parseDigits cs =
    if (!cs.isEmpty && cs.all Char.isDigit) = true then some (Nat.ofDigitChars 10 cs 0)
    else none := by
  unfold parseDigits
  cases cs <;> simp

/-- All digits behind an optional sign are read, as what they stand for. -/
theorem parse_eq (s : String) :
    parse s = if isSigned s.toList = true then some (value s.toList) else none := by
  unfold parse isSigned value
  split
  · rw [parseDigits_eq]
    split_ifs <;> rfl
  · rw [parseDigits_eq]
    split_ifs <;> rfl
  · rw [parseDigits_eq]
    split_ifs <;> rfl

theorem isNatNumeral_toDigits (n : ℕ) : isNatNumeral (Nat.toDigits 10 n) = true := by
  induction n using Nat.strong_induction_on with
  | _ n ih =>
    rcases Nat.lt_or_ge n 10 with hlt | hge
    · rw [Nat.toDigits_of_lt_base hlt]
      have hdigits : ∀ n < 10, isNatNumeral [Nat.digitChar n] = true := by decide
      exact hdigits n hlt
    · have hpos : 0 < n / 10 := Nat.div_pos hge (by decide)
      have hmod : n % 10 < 10 := Nat.mod_lt n (by decide)
      have hsplit := Nat.toDigits_append_toDigits (b := 10) (by decide) hpos hmod
      rw [Nat.div_add_mod] at hsplit
      have hfront := ih (n / 10) (Nat.div_lt_self (by omega) (by decide))
      rw [← hsplit]
      cases hcs : Nat.toDigits 10 (n / 10) with
      | nil => exact absurd hcs Nat.toDigits_ne_nil
      | cons c cs =>
        rw [hcs] at hfront
        have hdigit : ∀ c ∈ Nat.toDigits 10 (n % 10), c.isDigit = true := fun c hc =>
          Nat.isDigit_of_mem_toDigits (by decide) (by decide) hc
        -- the first digit of the quotient is not zero
        have hzero : c ≠ '0' := by
          rintro rfl
          have hnil : (∀ c ∈ cs, c.isDigit = true) ∧ cs = [] := by
            simpa [isNatNumeral] using hfront
          have hvalue := Nat.ofDigitChars_ten_toDigits (n := n / 10)
          rw [hcs, hnil.2] at hvalue
          change 0 = n / 10 at hvalue
          omega
        simp only [isNatNumeral, Bool.and_eq_true, List.all_eq_true] at hfront
        simp only [List.cons_append, isNatNumeral, Bool.and_eq_true, List.all_eq_true,
          Bool.or_eq_true, bne_iff_ne]
        refine ⟨⟨hfront.1.1, fun d hd => ?_⟩, Or.inl hzero⟩
        rcases List.mem_append.mp hd with hd | hd
        · exact hfront.1.2 d hd
        · exact hdigit d hd

/-- Digits are a numeral exactly when there are no zeros before those of their number. -/
theorem isNatNumeral_iff (h : parseDigits cs = some n) :
    isNatNumeral cs = true ↔ Nat.toDigits 10 n = cs := by
  refine ⟨fun hcs => ?_, fun hcs => hcs ▸ isNatNumeral_toDigits n⟩
  unfold parseDigits at h
  split_ifs at h with hdigits
  cases h
  obtain ⟨zeros, hzeros⟩ := exists_zeros hdigits.1 (List.all_eq_true.mp hdigits.2)
  cases zeros with
  | zero => exact hzeros.symm
  | succ zeros =>
    rw [List.replicate_succ, List.cons_append] at hzeros
    -- nothing may follow a zero
    rw [hzeros] at hcs
    simp [isNatNumeral] at hcs

theorem toList_repr_nat (n : ℕ) : (Int.repr (n : ℤ)).toList = Nat.toDigits 10 n := by
  show n.repr.toList = _
  rw [Nat.toList_repr]

theorem toList_repr_neg (h : 0 < n) : (Int.repr (-(n : ℤ))).toList = '-' :: Nat.toDigits 10 n := by
  obtain ⟨m, rfl⟩ := Nat.exists_eq_succ_of_ne_zero (Nat.pos_iff_ne_zero.mp h)
  show ("-" ++ (m + 1).repr).toList = _
  simp

/-- What is read is written in the same way exactly when it is a numeral. -/
theorem isNumeral_iff (h : parse s = some k) : isNumeral s.toList = true ↔ k.repr = s := by
  rw [← String.toList_inj]
  unfold parse at h
  unfold isNumeral
  split at h
  · rename_i cs hs
    obtain ⟨n, hn, rfl⟩ := Option.map_eq_some_iff.mp h
    rw [hs]
    have hcs := isNatNumeral_iff hn
    rcases Nat.eq_zero_or_pos n with rfl | hpos
    · rw [Nat.toDigits_zero] at hcs
      refine iff_of_false (fun hnumeral => ?_) (by simp [Int.repr])
      simp only [Bool.and_eq_true, bne_iff_ne] at hnumeral
      exact hnumeral.2 (hcs.mp hnumeral.1).symm
    · rw [toList_repr_neg hpos, List.cons_inj_right, ← hcs]
      simp only [Bool.and_eq_true, bne_iff_ne, and_iff_left_iff_imp]
      rintro - rfl
      cases hn
      cases hpos
  · rename_i cs hs
    obtain ⟨n, hn, rfl⟩ := Option.map_eq_some_iff.mp h
    rw [hs, toList_repr_nat]
    refine iff_of_false (by simp [isNatNumeral, Char.isDigit]) fun hplus => ?_
    exact plus_cons_ne_zeros cs 0 n hplus.symm
  · rename_i hminus hplus
    obtain ⟨n, hn, rfl⟩ := Option.map_eq_some_iff.mp h
    rw [toList_repr_nat, ← isNatNumeral_iff hn]
    split
    · rename_i cs hs
      exact absurd hs (hminus cs)
    · rfl

theorem isSigned_of_isNumeral (h : isNumeral cs = true) : isSigned cs = true := by
  have hnat : ∀ {cs}, isNatNumeral cs = true → (!cs.isEmpty && cs.all Char.isDigit) = true := by
    intro cs h
    cases cs with
    | nil => cases h
    | cons c cs =>
      simp only [isNatNumeral, Bool.and_eq_true] at h
      simp [h.1.1, h.1.2]
  unfold isNumeral at h
  unfold isSigned
  split at h
  · exact hnat (Bool.and_eq_true_iff.mp h).1
  · rename_i hminus
    split
    · rename_i cs
      exact absurd rfl (hminus cs)
    · simp [isNatNumeral, Char.isDigit] at h
    · exact hnat h

end Numerals

/-! ### Bounded numbers -/

/-- `core::num::ParseIntError`, by its kind. -/
inductive ParseIntError
  | empty
  | invalidDigit
  | posOverflow
  deriving DecidableEq

/-- The digits after those that make `acc`, up to the maximum. -/
def parseLoop (max : ℕ) : List Char → ℕ → Except ParseIntError ℕ
  | [], acc => .ok acc
  | c :: cs, acc =>
    if c.isDigit = true then
      let acc' := 10 * acc + (c.toNat - '0'.toNat)
      if acc' ≤ max then parseLoop max cs acc' else .error .posOverflow
    else .error .invalidDigit

/-- `from_str` of an unsigned type: digits behind an optional `+`. -/
def parseUnsigned (max : ℕ) : List Char → Except ParseIntError ℕ
  | [] => .error .empty
  | '+' :: [] => .error .invalidDigit
  | '+' :: cs => parseLoop max cs 0
  | cs => parseLoop max cs 0

section Bounded

variable {max acc n : ℕ} {cs : List Char}

theorem le_ofDigitChars (cs : List Char) (acc : ℕ) : acc ≤ Nat.ofDigitChars 10 cs acc := by
  rw [Nat.ofDigitChars_eq_ofDigitChars_zero]
  have hpos : 0 < 10 ^ cs.length := Nat.pow_pos (by decide)
  exact (Nat.le_mul_of_pos_left acc hpos).trans (Nat.le_add_right _ _)

theorem parseLoop_eq_ok (hacc : acc ≤ max) : parseLoop max cs acc = .ok n ↔
    (∀ c ∈ cs, c.isDigit = true) ∧ Nat.ofDigitChars 10 cs acc = n ∧ n ≤ max := by
  induction cs generalizing acc with
  | nil =>
    rw [parseLoop, Nat.ofDigitChars_nil]
    constructor
    · intro h
      cases h
      exact ⟨List.forall_mem_nil _, rfl, hacc⟩
    · rintro ⟨-, rfl, -⟩
      rfl
  | cons c cs ih =>
    rw [parseLoop, Nat.ofDigitChars_cons, List.forall_mem_cons]
    by_cases hdigit : c.isDigit = true
    · rw [if_pos hdigit, and_iff_right hdigit]
      dsimp only
      by_cases hle : 10 * acc + (c.toNat - '0'.toNat) ≤ max
      · rw [if_pos hle]
        exact ih hle
      · rw [if_neg hle]
        refine iff_of_false (fun h => by cases h) ?_
        rintro ⟨-, rfl, hmax⟩
        exact hle ((le_ofDigitChars cs _).trans hmax)
    · rw [if_neg hdigit]
      exact iff_of_false (fun h => by cases h) fun h => hdigit h.1.1

theorem parseLoop_zero_eq_ok (hne : cs ≠ []) : parseLoop max cs 0 = .ok n ↔ n ≤ max ∧
    ∃ zeros, cs = List.replicate zeros '0' ++ Nat.toDigits 10 n := by
  rw [parseLoop_eq_ok (Nat.zero_le max)]
  constructor
  · rintro ⟨hdigits, rfl, hle⟩
    exact ⟨hle, exists_zeros hne hdigits⟩
  · rintro ⟨hle, zeros, rfl⟩
    refine ⟨fun c hc => isDigit_of_mem_zeros hc, ?_, hle⟩
    rw [Nat.ofDigitChars_append, Nat.ofDigitChars_replicate_zero, Nat.mul_zero,
      Nat.ofDigitChars_ten_toDigits]

theorem parseUnsigned_cons {c : Char} (h : c ≠ '+') :
    parseUnsigned max (c :: cs) = parseLoop max (c :: cs) 0 := by
  unfold parseUnsigned
  split
  · rename_i hcs
    cases hcs
  · rename_i hcs
    exact absurd (List.cons.inj hcs).1 h
  · rename_i hcs
    exact absurd (List.cons.inj hcs).1 h
  · rfl

theorem ofDigitChars_lt (h : ∀ c ∈ cs, c.isDigit = true) :
    Nat.ofDigitChars 10 cs 0 < 10 ^ cs.length := by
  induction cs with
  | nil => simp
  | cons c cs ih =>
    obtain ⟨hc, hcs⟩ := List.forall_mem_cons.mp h
    have hlt := (digitChar_of_isDigit hc).1
    rw [Nat.ofDigitChars_cons, Nat.ofDigitChars_eq_ofDigitChars_zero, Nat.mul_zero, Nat.zero_add,
      List.length_cons, pow_succ]
    have hmul : 10 ^ cs.length * (c.toNat - '0'.toNat) ≤ 10 ^ cs.length * 9 :=
      Nat.mul_le_mul_left _ (Nat.le_of_lt_succ hlt)
    have := ih hcs
    omega

/-- What `parseUnsigned` accepts: a number up to the maximum, behind an optional `+` and some
zeros. -/
theorem parseUnsigned_eq_ok : parseUnsigned max cs = .ok n ↔ n ≤ max ∧
    ∃ (plus : Bool) (zeros : ℕ), cs = (if plus then ['+'] else []) ++
      (List.replicate zeros '0' ++ Nat.toDigits 10 n) := by
  cases cs with
  | nil =>
    refine iff_of_false (fun h => by cases h) ?_
    rintro ⟨-, plus, zeros, h⟩
    exact zeros_ne_nil zeros n (List.append_eq_nil_iff.mp h.symm).2
  | cons c cs =>
    by_cases hplus : c = '+'
    · subst hplus
      cases cs with
      | nil =>
        refine iff_of_false (fun h => by cases h) ?_
        rintro ⟨-, plus, zeros, h⟩
        cases plus with
        | false => exact plus_cons_ne_zeros [] zeros n h
        | true => exact zeros_ne_nil zeros n (List.cons.inj h).2.symm
      | cons c cs =>
        show parseLoop max (c :: cs) 0 = .ok n ↔ _
        rw [parseLoop_zero_eq_ok (List.cons_ne_nil c cs)]
        refine and_congr_right fun _ => ⟨?_, ?_⟩
        · rintro ⟨zeros, h⟩
          exact ⟨true, zeros, congrArg ('+' :: ·) h⟩
        · rintro ⟨plus, zeros, h⟩
          cases plus with
          | false => exact absurd h (plus_cons_ne_zeros _ zeros n)
          | true => exact ⟨zeros, (List.cons.inj h).2⟩
    · rw [parseUnsigned_cons hplus, parseLoop_zero_eq_ok (List.cons_ne_nil c cs)]
      refine and_congr_right fun _ => ⟨?_, ?_⟩
      · rintro ⟨zeros, h⟩
        exact ⟨false, zeros, h⟩
      · rintro ⟨plus, zeros, h⟩
        cases plus with
        | false => exact ⟨zeros, h⟩
        | true => exact absurd (List.cons.inj h).1 hplus

end Bounded

end Decimal
