import RelayerCore.AmplifierApi.Types

/-!
# Event ids (`amplifier-api/src/types.rs`, `TxEvent`)

An event id is a transaction hash and a log index around a dash.  `hash_and_index` splits at the
last dash and reads the index the way the standard library does, so that it also accepts a leading
`+` and leading zeros.  Two further ids are made for events without a log index; the text after
their last dash may still be a number.
-/

namespace RelayerCore

/-! ### The last separator -/

/-- `rsplit_once`: what stands before and after the last separator. -/
def rsplitOnce (sep : Char) : List Char → Option (List Char × List Char)
  | [] => none
  | c :: cs =>
    match rsplitOnce sep cs with
    | some (before, after) => some (c :: before, after)
    | none => if c = sep then some ([], cs) else none

section Split

variable {sep : Char} {cs before after : List Char}

theorem rsplitOnce_eq_none : rsplitOnce sep cs = none ↔ sep ∉ cs := by
  induction cs with
  | nil => simp [rsplitOnce]
  | cons c cs ih =>
    unfold rsplitOnce
    cases hsplit : rsplitOnce sep cs with
    | none =>
      have hcs := ih.mp hsplit
      by_cases hc : c = sep
      · simp [hc]
      · simp [hc, hcs, Ne.symm hc]
    | some parts =>
      have hcs : sep ∈ cs := by
        by_contra h
        rw [ih.mpr h] at hsplit
        cases hsplit
      simp [hcs]

theorem rsplitOnce_append (h : sep ∉ after) (before : List Char) :
    rsplitOnce sep (before ++ sep :: after) = some (before, after) := by
  induction before with
  | nil =>
    rw [List.nil_append, rsplitOnce, rsplitOnce_eq_none.mpr h]
    exact if_pos rfl
  | cons c before ih => rw [List.cons_append, rsplitOnce, ih]

theorem rsplitOnce_eq_some : rsplitOnce sep cs = some (before, after) ↔
    cs = before ++ sep :: after ∧ sep ∉ after := by
  constructor
  · intro h
    induction cs generalizing before with
    | nil => cases h
    | cons c cs ih =>
      unfold rsplitOnce at h
      cases hsplit : rsplitOnce sep cs with
      | none =>
        rw [hsplit] at h
        dsimp only at h
        split_ifs at h with hc
        cases h
        exact ⟨congrArg (· :: _) hc, rsplitOnce_eq_none.mp hsplit⟩
      | some parts =>
        rw [hsplit] at h
        cases h
        obtain ⟨rfl, hafter⟩ := ih hsplit
        exact ⟨rfl, hafter⟩
  · rintro ⟨rfl, h⟩
    exact rsplitOnce_append h before

end Split

/-! ### Hash and index -/

/-- `TxEventParseError`. -/
inductive TxEventParseError
  | separatorNotFound
  | logIndexNotNumber (err : Decimal.ParseIntError)
  deriving DecidableEq

/-- `usize::MAX`. -/
abbrev maxLogIndex : ℕ := 2 ^ 64 - 1

namespace TxEvent

/-- `TxEvent::new`. -/
def new (txHash : String) (logIndex : UInt64) : TxEvent :=
  ⟨txHash ++ "-" ++ logIndex.toNat.repr⟩

/-- `TxEvent::hash_and_index`. -/
def hashAndIndex (self : TxEvent) : Except TxEventParseError (String × UInt64) :=
  match rsplitOnce '-' self.val.toList with
  | none => .error .separatorNotFound
  | some (txHash, logIndexStr) =>
    match Decimal.parseUnsigned maxLogIndex logIndexStr with
    | .error err => .error (.logIndexNotNumber err)
    | .ok logIndex => .ok (String.ofList txHash, UInt64.ofNat logIndex)

/-- A number behind an optional `+` and some zeros. -/
def numeral (plus : Bool) (zeros n : ℕ) : List Char :=
  (if plus then ['+'] else []) ++ (List.replicate zeros '0' ++ Nat.toDigits 10 n)

theorem dash_notMem_numeral (plus : Bool) (zeros n : ℕ) : '-' ∉ numeral plus zeros n := by
  intro h
  rcases List.mem_append.mp h with h | h
  · cases plus <;> simp at h
  · have hdigit : ('-').isDigit = true := Decimal.isDigit_of_mem_zeros h
    cases hdigit

/-- The ids that are read as a hash and an index. -/
theorem hashAndIndex_eq_ok {e : TxEvent} {txHash : String} {logIndex : UInt64} :
    e.hashAndIndex = .ok (txHash, logIndex) ↔ ∃ plus zeros,
      e.val.toList = txHash.toList ++ '-' :: numeral plus zeros logIndex.toNat := by
  unfold hashAndIndex
  constructor
  · intro h
    cases hsplit : rsplitOnce '-' e.val.toList with
    | none =>
      rw [hsplit] at h
      cases h
    | some parts =>
      obtain ⟨before, after⟩ := parts
      rw [hsplit] at h
      dsimp only at h
      cases hparse : Decimal.parseUnsigned maxLogIndex after with
      | error err =>
        rw [hparse] at h
        cases h
      | ok n =>
        rw [hparse] at h
        cases h
        obtain ⟨hle, plus, zeros, hafter⟩ := Decimal.parseUnsigned_eq_ok.mp hparse
        have hindex : (UInt64.ofNat n).toNat = n :=
          UInt64.toNat_ofNat_of_lt (Nat.lt_succ_of_le hle)
        refine ⟨plus, zeros, ?_⟩
        rw [String.toList_ofList, hindex, numeral, ← hafter]
        exact (rsplitOnce_eq_some.mp hsplit).1
  · rintro ⟨plus, zeros, h⟩
    have hparse : Decimal.parseUnsigned maxLogIndex (numeral plus zeros logIndex.toNat) =
        .ok logIndex.toNat :=
      Decimal.parseUnsigned_eq_ok.mpr ⟨Nat.le_pred_of_lt logIndex.toNat_lt, plus, zeros, rfl⟩
    rw [h, rsplitOnce_append (dash_notMem_numeral _ _ _)]
    dsimp only
    rw [hparse]
    dsimp only
    rw [String.ofList_toList, UInt64.ofNat_toNat]

theorem toList_new (txHash : String) (logIndex : UInt64) : (new txHash logIndex).val.toList =
    txHash.toList ++ '-' :: numeral false 0 logIndex.toNat := by
  show (txHash ++ "-" ++ logIndex.toNat.repr).toList = _
  rw [String.toList_append, String.toList_append, Nat.toList_repr]
  simp [numeral]

/-- `hash_and_index` undoes `new`, and an id it reads as a hash and an index is the one `new` makes
of them, up to a `+` and zeros in front of the index. -/
theorem hash_and_index_new_iff :
    (∀ txHash logIndex, (new txHash logIndex).hashAndIndex = .ok (txHash, logIndex)) ∧
    ∀ (e : TxEvent) txHash logIndex, e.hashAndIndex = .ok (txHash, logIndex) ↔
      ∃ plus zeros, e.val = txHash ++ "-" ++ String.ofList (numeral plus zeros logIndex.toNat) := by
  constructor
  · intro txHash logIndex
    exact hashAndIndex_eq_ok.mpr ⟨false, 0, toList_new txHash logIndex⟩
  · intro e txHash logIndex
    rw [hashAndIndex_eq_ok]
    refine exists₂_congr fun plus zeros => ?_
    rw [← String.toList_inj, String.toList_append, String.toList_append, String.toList_ofList]
    simp

/-- A leading zero is lost. -/
theorem leading_zero_not_new : ¬ ∀ (e : TxEvent) txHash logIndex,
    e.hashAndIndex = .ok (txHash, logIndex) → e = new txHash logIndex := by
  intro h
  have he := h ⟨"0xab-012"⟩ "0xab" 12 (by decide)
  revert he
  decide

end TxEvent

/-! ### Synthetic ids -/

/-- The 32 hexadecimal digits of a UUID. -/
def hexDigits (uuid : BitVec 128) : List Char :=
  (List.range 32).map fun i => Nat.digitChar (uuid.toNat / 16 ^ (31 - i) % 16)

/-- `Display` of a UUID: groups of 8, 4, 4, 4 and 12 digits. -/
def TaskItemId.hyphenated (self : TaskItemId) : List Char :=
  let digits := hexDigits self.uuid
  digits.take 8 ++ '-' :: (digits.drop 8).take 4 ++ '-' :: (digits.drop 12).take 4 ++
    '-' :: (digits.drop 16).take 4 ++ '-' :: digits.drop 20

namespace TxEvent

/-- `TxEvent::cannot_execute_task_event_id`. -/
def cannotExecuteTaskEventId (taskItemId : TaskItemId) : TxEvent :=
  ⟨"cannot-execute-task-v2-" ++ String.ofList taskItemId.hyphenated⟩

/-- `TxEvent::tx_reverted_event_id`. -/
def txRevertedEventId (txHash : String) : TxEvent := ⟨"tx-reverted-" ++ txHash⟩

/-- The id is not read as a hash and an index. -/
def Rejected (e : TxEvent) : Prop := ∃ err, e.hashAndIndex = .error err

def isHexDigit (c : Char) : Bool :=
  c.isDigit || 'a' ≤ c && c ≤ 'f' || 'A' ≤ c && c ≤ 'F'

theorem digitChar_hex : ∀ n < 16, ((Nat.digitChar n).isDigit = true ↔ n < 10) ∧
    Nat.digitChar n ≠ '-' ∧ Nat.digitChar n ≠ '+' := by decide

/-- What comes after the last dash decides. -/
theorem rejected_iff {e : TxEvent} {before after : List Char}
    (he : e.val.toList = before ++ '-' :: after) (hdash : '-' ∉ after) :
    e.Rejected ↔ ∃ err, Decimal.parseUnsigned maxLogIndex after = .error err := by
  unfold Rejected hashAndIndex
  rw [he, rsplitOnce_append hdash]
  dsimp only
  cases Decimal.parseUnsigned maxLogIndex after with
  | error err => simp
  | ok n => simp

/-- Text that begins like a number is refused exactly when it holds something else than digits, or
is too long. -/
theorem parseUnsigned_error_iff {c : Char} {cs : List Char} (hc : c ≠ '+')
    (hlen : (c :: cs).length ≤ 19) :
    (∃ err, Decimal.parseUnsigned maxLogIndex (c :: cs) = .error err) ↔
      ∃ d ∈ c :: cs, d.isDigit = false := by
  rw [Decimal.parseUnsigned_cons hc]
  constructor
  · rintro ⟨err, herr⟩
    by_contra hdigits
    have hall : ∀ d ∈ c :: cs, d.isDigit = true := by
      intro d hd
      by_contra hno
      exact hdigits ⟨d, hd, Bool.eq_false_of_not_eq_true hno⟩
    have hle : Nat.ofDigitChars 10 (c :: cs) 0 ≤ maxLogIndex := by
      have hpow : 10 ^ (c :: cs).length ≤ 10 ^ 19 := Nat.pow_le_pow_right (by decide) hlen
      have hmax : 10 ^ 19 ≤ maxLogIndex := by decide
      exact ((Decimal.ofDigitChars_lt hall).le.trans hpow).trans hmax
    rw [(Decimal.parseLoop_eq_ok (Nat.zero_le _)).mpr ⟨hall, rfl, hle⟩] at herr
    cases herr
  · rintro ⟨d, hd, hfalse⟩
    cases hparse : Decimal.parseLoop maxLogIndex (c :: cs) 0 with
    | error err => exact ⟨err, rfl⟩
    | ok n =>
      have htrue := ((Decimal.parseLoop_eq_ok (Nat.zero_le _)).mp hparse).1 d hd
      rw [hfalse] at htrue
      cases htrue

/-- The last group of a UUID. -/
theorem drop_hexDigits (uuid : BitVec 128) : (hexDigits uuid).drop 20 =
    (List.range 12).map fun i => Nat.digitChar (uuid.toNat / 16 ^ (11 - i) % 16) := rfl

theorem cannot_execute_rejected_iff (task : TaskItemId) :
    (cannotExecuteTaskEventId task).Rejected ↔ ∃ i < 12, 10 ≤ task.uuid.toNat / 16 ^ i % 16 := by
  have hdigit : ∀ i, task.uuid.toNat / 16 ^ i % 16 < 16 := fun i => Nat.mod_lt _ (by decide)
  have hmem : ∀ d, d ∈ (hexDigits task.uuid).drop 20 ↔
      ∃ i < 12, Nat.digitChar (task.uuid.toNat / 16 ^ i % 16) = d := by
    intro d
    rw [drop_hexDigits, List.mem_map]
    constructor
    · rintro ⟨i, hi, rfl⟩
      exact ⟨11 - i, by omega, rfl⟩
    · rintro ⟨i, hi, rfl⟩
      refine ⟨11 - i, List.mem_range.mpr (by omega), ?_⟩
      have hback : 11 - (11 - i) = i := by omega
      rw [hback]
  obtain ⟨groups, hgroups⟩ : ∃ groups, task.hyphenated =
      groups ++ '-' :: (hexDigits task.uuid).drop 20 := ⟨_, rfl⟩
  have he : (cannotExecuteTaskEventId task).val.toList =
      ("cannot-execute-task-v2-".toList ++ groups) ++ '-' :: (hexDigits task.uuid).drop 20 := by
    unfold cannotExecuteTaskEventId
    rw [String.toList_append, hgroups, List.append_assoc]
    exact congrArg (_ ++ ·) String.toList_ofList
  have hdash : '-' ∉ (hexDigits task.uuid).drop 20 := by
    intro h
    obtain ⟨i, -, hi⟩ := (hmem '-').mp h
    exact (digitChar_hex _ (hdigit i)).2.1 hi
  rw [rejected_iff he hdash]
  obtain ⟨c, cs, hcs⟩ : ∃ c cs, (hexDigits task.uuid).drop 20 = c :: cs := ⟨_, _, rfl⟩
  have hlen : (c :: cs).length ≤ 19 := by
    rw [← hcs, drop_hexDigits, List.length_map, List.length_range]
    decide
  have hplus : c ≠ '+' := by
    obtain ⟨i, -, hi⟩ := (hmem c).mp (hcs ▸ List.mem_cons_self)
    rw [← hi]
    exact (digitChar_hex _ (hdigit i)).2.2
  rw [hcs, parseUnsigned_error_iff hplus hlen]
  constructor
  · rintro ⟨d, hd, hfalse⟩
    rw [← hcs] at hd
    obtain ⟨i, hi, rfl⟩ := (hmem d).mp hd
    refine ⟨i, hi, ?_⟩
    by_contra hlt
    rw [((digitChar_hex _ (hdigit i)).1).mpr (by omega)] at hfalse
    cases hfalse
  · rintro ⟨i, hi, hge⟩
    refine ⟨_, hcs ▸ (hmem _).mpr ⟨i, hi, rfl⟩, ?_⟩
    apply Bool.eq_false_of_not_eq_true
    rw [(digitChar_hex _ (hdigit i)).1]
    omega

theorem tx_reverted_rejected {hash : String} (hhash : ∀ c ∈ hash.toList, isHexDigit c = true) :
    (txRevertedEventId ("0x" ++ hash)).Rejected := by
  have he : (txRevertedEventId ("0x" ++ hash)).val.toList =
      "tx-reverted".toList ++ '-' :: '0' :: 'x' :: hash.toList := by
    show ("tx-reverted-" ++ ("0x" ++ hash)).toList = _
    rw [String.toList_append, String.toList_append]
    rfl
  have hdash : '-' ∉ '0' :: 'x' :: hash.toList := by
    intro h
    have hhex : '-' ∈ hash.toList := by simpa using h
    have := hhash '-' hhex
    revert this
    decide
  rw [rejected_iff he hdash, Decimal.parseUnsigned_cons (by decide)]
  -- the second character is no digit
  exact ⟨.invalidDigit, rfl⟩

/-- The two synthetic ids are refused exactly when one of the last twelve digits of the UUID is a
letter. -/
theorem synthetic_ids_rejected_iff (task : TaskItemId) {hash : String}
    (hhash : ∀ c ∈ hash.toList, isHexDigit c = true) :
    ((cannotExecuteTaskEventId task).Rejected ∧ (txRevertedEventId ("0x" ++ hash)).Rejected) ↔
      ∃ i < 12, 10 ≤ task.uuid.toNat / 16 ^ i % 16 := by
  rw [and_iff_left (tx_reverted_rejected hhash)]
  exact cannot_execute_rejected_iff task

theorem synthetic_ids_rejected_letter :
    (cannotExecuteTaskEventId ⟨0xab⟩).Rejected ∧ (txRevertedEventId ("0x" ++ "1b3dd6")).Rejected :=
  (synthetic_ids_rejected_iff ⟨0xab⟩ (List.all_eq_true.mp (by decide))).mpr ⟨0, by decide, by decide⟩

/-- The nil UUID is read as a hash with the log index 0. -/
theorem nil_uuid_not_rejected : ¬ ((cannotExecuteTaskEventId ⟨0⟩).Rejected ∧
    (txRevertedEventId ("0x" ++ "1b3dd6")).Rejected) := by
  rintro ⟨⟨err, herr⟩, -⟩
  have hok : (cannotExecuteTaskEventId ⟨0⟩).hashAndIndex =
      .ok ("cannot-execute-task-v2-00000000-0000-0000-0000", 0) := by decide +kernel
  rw [hok] at herr
  cases herr

end TxEvent

end RelayerCore
