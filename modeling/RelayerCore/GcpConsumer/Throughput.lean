import RelayerCore.Lib.Machine

/-!
# The throughput of the consumer (`infrastructure/src/tracking.rs`)

The tracker counts the processed messages; a poll reports the messages and the milliseconds since
the previous poll, or nothing when no millisecond has passed.  Both baselines are moved before that
is decided.  The counts are those of `AtomicU64`, which wrap around.

A ledger follows the calls: what has been recorded, what has been reported, and when.
-/

namespace RelayerCore

open Machine

structure ThroughputTracker where
  processedCount : UInt64
  lastCount : UInt64
  lastTimestampMs : UInt64
  deriving DecidableEq

namespace ThroughputTracker

/-- A rate: messages, and the milliseconds they took. -/
structure Interval where
  count : UInt64
  elapsedMs : UInt64
  deriving DecidableEq

def new (now : UInt64) : ThroughputTracker :=
  { processedCount := 0, lastCount := 0, lastTimestampMs := now }

def updateAndGetRate (self : ThroughputTracker) (now : UInt64) :
    Option Interval × ThroughputTracker :=
  let currentCount := self.processedCount
  let prevCount := self.lastCount
  let last := self.lastTimestampMs
  let self := { self with lastCount := currentCount, lastTimestampMs := now }
  if 0 < now - last then (some ⟨currentCount - prevCount, now - last⟩, self) else (none, self)

def recordProcessedMessage (self : ThroughputTracker) : ThroughputTracker :=
  { self with processedCount := self.processedCount + 1 }

/-! ### One poll -/

section Poll

variable {t : ThroughputTracker} {now : UInt64}

/-- A poll moves both baselines, whatever it returns. -/
@[simp] theorem updateAndGetRate_snd :
    (t.updateAndGetRate now).2 =
      { t with lastCount := t.processedCount, lastTimestampMs := now } := by
  unfold updateAndGetRate
  dsimp only
  split_ifs <;> rfl

theorem updateAndGetRate_same (h : now = t.lastTimestampMs) :
    (t.updateAndGetRate now).1 = none := by
  simp [updateAndGetRate, h]

theorem updateAndGetRate_of_ne (h : now ≠ t.lastTimestampMs) :
    (t.updateAndGetRate now).1 =
      some ⟨t.processedCount - t.lastCount, now - t.lastTimestampMs⟩ := by
  have hpos : 0 < now - t.lastTimestampMs := by
    rw [UInt64.pos_iff_ne_zero, ne_eq, UInt64.sub_eq_iff_eq_add, UInt64.zero_add]
    exact h
  simp [updateAndGetRate, hpos]

/-- A difference of counts, up to the wrapping of the counter. -/
theorem toNat_sub_ofNat (m n : ℕ) :
    (UInt64.ofNat (m + n) - UInt64.ofNat m).toNat = n % 2 ^ 64 := by
  rw [UInt64.ofNat_add, UInt64.add_comm, UInt64.add_sub_cancel, UInt64.toNat_ofNat']

theorem ne_of_later {m n : UInt64} (h : m < n) : n ≠ m := by
  rintro rfl
  exact UInt64.lt_irrefl n h

theorem iterate_recordProcessedMessage (t : ThroughputTracker) (n : ℕ) :
    recordProcessedMessage^[n] t =
      { t with processedCount := t.processedCount + .ofNat n } := by
  induction n with
  | zero => simp
  | succ n ih =>
    rw [Function.iterate_succ_apply', ih]
    simp [recordProcessedMessage, UInt64.add_assoc]

end Poll

/-! ### The ledger -/

/-- A call, with the milliseconds that the clock shows to a poll. -/
inductive Event
  | recordProcessedMessage
  | updateAndGetRate (now : UInt64)
  deriving DecidableEq

/-- The tracker, and what it has to account for: the last time it read the clock, the messages
recorded so far and since the previous poll, the sum of the reported counts, and the messages and
the time at the last report, or at the creation. -/
structure Ledger where
  tracker : ThroughputTracker
  clock : UInt64
  recorded : ℕ
  fresh : ℕ
  reported : ℕ
  recordedAtReport : ℕ
  reportedAt : UInt64

namespace Ledger

def new (now : UInt64) : Ledger :=
  { tracker := .new now, clock := now, recorded := 0, fresh := 0, reported := 0
    recordedAtReport := 0, reportedAt := now }

/-- What a poll reports is entered. -/
def enter (s : Ledger) : Option Interval → Ledger
  | none => s
  | some interval =>
    { s with
      reported := s.reported + interval.count.toNat
      recordedAtReport := s.recorded
      reportedAt := s.clock }

def step (s : Ledger) : Event → Ledger
  | .recordProcessedMessage =>
    { s with
      tracker := s.tracker.recordProcessedMessage
      recorded := s.recorded + 1
      fresh := s.fresh + 1 }
  | .updateAndGetRate now =>
    let (rate, tracker) := s.tracker.updateAndGetRate now
    { s with tracker, clock := now, fresh := 0 }.enter rate

/-- The call returns `None`. -/
def Silent (s : Ledger) : Event → Prop
  | .recordProcessedMessage => False
  | .updateAndGetRate now => (s.tracker.updateAndGetRate now).1 = none

/-- The clock does not go backwards. -/
def Forward (s : Ledger) : Event → Prop
  | .recordProcessedMessage => True
  | .updateAndGetRate now => s.clock ≤ now

instance (s : Ledger) : (e : Event) → Decidable (s.Forward e)
  | .recordProcessedMessage => inferInstanceAs (Decidable True)
  | .updateAndGetRate now => inferInstanceAs (Decidable (s.clock ≤ now))

/-- The reported counts add up to the messages recorded before the last report. -/
def Accounted (s : Ledger) : Prop := s.reported = s.recordedAtReport

/-- Whatever is recorded until the clock goes on, the next report covers all messages and all the
time since the last one. -/
def KeepsOpen (s : Ledger) : Prop :=
  ∀ n < 2 ^ 64, ∀ now, s.clock < now → ∃ interval,
    ((recordProcessedMessage^[n] s.tracker).updateAndGetRate now).1 = some interval ∧
      interval.count.toNat = s.recorded - s.recordedAtReport + n ∧
      interval.elapsedMs = now - s.reportedAt

/-- The call leaves every message accounted for, and what it does not report to the next report. -/
def Conserves (s : Ledger) (e : Event) : Prop :=
  (s.step e).Accounted ∧ (s.Silent e → (s.step e).KeepsOpen)

/-- A poll in the millisecond of the previous one has no messages to report, unless the clock has
come to its end; the messages of any other poll can be counted. -/
def Timely (s : Ledger) : Event → Prop
  | .recordProcessedMessage => True
  | .updateAndGetRate now =>
    if now = s.clock then s.fresh = 0 ∨ ∀ later, later ≤ now else s.fresh < 2 ^ 64

/-! ### The invariant of timely polls -/

/-- The baselines of the tracker are those of the last report. -/
structure Even (s : Ledger) : Prop where
  processedCount : s.tracker.processedCount = .ofNat s.recorded
  lastCount : s.tracker.lastCount = .ofNat s.recordedAtReport
  recorded : s.recorded = s.recordedAtReport + s.fresh
  reportedAt : s.reportedAt = s.clock

structure Inv (s : Ledger) : Prop where
  lastTimestampMs : s.tracker.lastTimestampMs = s.clock
  accounted : s.Accounted
  even : (∃ now, s.clock < now) → s.Even

theorem inv_new (now : UInt64) : (new now).Inv :=
  ⟨rfl, rfl, fun _ => ⟨rfl, rfl, rfl, rfl⟩⟩

section Step

variable {s : Ledger} {now : UInt64}

/-- A poll in the millisecond of the previous one. -/
theorem step_same (h : s.Inv) (hnow : now = s.clock) :
    s.step (.updateAndGetRate now) =
      { s with
        tracker := { s.tracker with
          lastCount := s.tracker.processedCount
          lastTimestampMs := now }
        fresh := 0 } := by
  have hnone := updateAndGetRate_same (t := s.tracker) (hnow.trans h.lastTimestampMs.symm)
  subst hnow
  simp [step, hnone, enter]

/-- Any other poll. -/
theorem step_of_ne (h : s.Inv) (hnow : now ≠ s.clock) :
    s.step (.updateAndGetRate now) =
      { s with
        tracker := { s.tracker with
          lastCount := s.tracker.processedCount
          lastTimestampMs := now }
        clock := now
        fresh := 0
        reported := s.reported + (s.tracker.processedCount - s.tracker.lastCount).toNat
        recordedAtReport := s.recorded
        reportedAt := now } := by
  have hsome := updateAndGetRate_of_ne (t := s.tracker) (h.lastTimestampMs.symm ▸ hnow)
  simp [step, hsome, enter]

/-- While the clock can go on, a timely poll in the millisecond of the previous one has nothing to
report. -/
theorem fresh_eq_zero {later : UInt64} (hnow : now = s.clock)
    (hfresh : s.fresh = 0 ∨ ∀ later, later ≤ now) (hlater : s.clock < later) : s.fresh = 0 :=
  hfresh.resolve_right fun hend => UInt64.not_le.mpr (hnow ▸ hlater) (hend later)

/-- Only without messages does a poll in the millisecond of the previous one leave everything to the
next report. -/
theorem conserves_same_iff (h : s.Inv) (hnow : now = s.clock) :
    s.Conserves (.updateAndGetRate now) ↔ s.fresh = 0 ∨ ∀ later, later ≤ now := by
  have hsilent : s.Silent (.updateAndGetRate now) :=
    updateAndGetRate_same (hnow.trans h.lastTimestampMs.symm)
  have hacc : (s.step (.updateAndGetRate now)).Accounted := by
    rw [step_same h hnow]
    exact h.accounted
  unfold Conserves
  rw [and_iff_right hacc, forall_prop_of_true hsilent, step_same h hnow]
  unfold KeepsOpen
  dsimp only
  constructor
  · intro hopen
    by_cases hend : ∃ later, s.clock < later
    · obtain ⟨later, hlater⟩ := hend
      have heven := h.even ⟨later, hlater⟩
      obtain ⟨interval, hsome, hcount, -⟩ := hopen 0 (by norm_num) later hlater
      -- the messages of the silent poll are missing from the count
      rw [Function.iterate_zero_apply, updateAndGetRate_of_ne (hnow ▸ ne_of_later hlater)]
        at hsome
      cases hsome
      rw [UInt64.sub_self, UInt64.toNat_zero, heven.recorded] at hcount
      left
      omega
    · right
      intro later
      by_contra hlt
      exact hend ⟨later, hnow ▸ UInt64.not_le.mp hlt⟩
  · intro hfresh n hn later hlater
    have heven := h.even ⟨later, hlater⟩
    have hzero : s.fresh = 0 := fresh_eq_zero hnow hfresh hlater
    have hpending : s.recorded - s.recordedAtReport = 0 := by
      have := heven.recorded
      omega
    rw [iterate_recordProcessedMessage, updateAndGetRate_of_ne (hnow ▸ ne_of_later hlater)]
    refine ⟨_, rfl, ?_, ?_⟩
    · dsimp only
      rw [heven.processedCount, ← UInt64.ofNat_add, toNat_sub_ofNat, Nat.mod_eq_of_lt hn,
        hpending, Nat.zero_add]
    · dsimp only
      rw [hnow, heven.reportedAt]

/-- What any other poll reports is right as long as it can be counted. -/
theorem conserves_of_ne_iff (h : s.Inv) (hforward : s.clock ≤ now) (hnow : now ≠ s.clock) :
    s.Conserves (.updateAndGetRate now) ↔ s.fresh < 2 ^ 64 := by
  have heven := h.even ⟨now, UInt64.lt_of_le_of_ne hforward hnow.symm⟩
  have hloud : ¬ s.Silent (.updateAndGetRate now) := by
    rw [Silent, updateAndGetRate_of_ne (h.lastTimestampMs.symm ▸ hnow)]
    exact Option.some_ne_none _
  have hcount : (s.tracker.processedCount - s.tracker.lastCount).toNat = s.fresh % 2 ^ 64 := by
    rw [heven.processedCount, heven.lastCount, heven.recorded, toNat_sub_ofNat]
  have hacc : s.reported = s.recordedAtReport := h.accounted
  have hrec := heven.recorded
  unfold Conserves Accounted
  rw [and_iff_left fun hsilent => absurd hsilent hloud, step_of_ne h hnow]
  dsimp only
  rw [hcount]
  omega

theorem conserves_iff {e : Event} (h : s.Inv) (hforward : s.Forward e) :
    s.Conserves e ↔ s.Timely e := by
  cases e with
  | recordProcessedMessage => exact iff_of_true ⟨h.accounted, False.elim⟩ trivial
  | updateAndGetRate now =>
    rw [Timely]
    by_cases hnow : now = s.clock
    · rw [if_pos hnow]
      exact conserves_same_iff h hnow
    · rw [if_neg hnow]
      exact conserves_of_ne_iff h hforward hnow

/-- A timely call keeps the invariant. -/
theorem inv_step {e : Event} (h : s.Inv) (hforward : s.Forward e) (htimely : s.Timely e) :
    (s.step e).Inv := by
  have hacc : (s.step e).Accounted := ((conserves_iff h hforward).mpr htimely).1
  cases e with
  | recordProcessedMessage =>
    refine ⟨h.lastTimestampMs, hacc, fun hlater => ?_⟩
    have heven := h.even hlater
    have hrec := heven.recorded
    refine ⟨?_, heven.lastCount, ?_, heven.reportedAt⟩
    · simp [step, recordProcessedMessage, heven.processedCount]
    · dsimp only [step]
      omega
  | updateAndGetRate now =>
    rw [Timely] at htimely
    by_cases hnow : now = s.clock
    · rw [step_same h hnow] at hacc ⊢
      rw [if_pos hnow] at htimely
      refine ⟨hnow, hacc, fun ⟨later, hlater⟩ => ?_⟩
      have heven := h.even ⟨later, hlater⟩
      have hzero : s.fresh = 0 := fresh_eq_zero hnow htimely hlater
      have hrec := heven.recorded
      rw [hzero, Nat.add_zero] at hrec
      exact ⟨heven.processedCount, hrec ▸ heven.processedCount, hrec, heven.reportedAt⟩
    · have heven := h.even ⟨now, UInt64.lt_of_le_of_ne hforward (Ne.symm hnow)⟩
      rw [step_of_ne h hnow] at hacc ⊢
      exact ⟨rfl, hacc, fun _ => ⟨heven.processedCount, heven.processedCount, rfl, rfl⟩⟩

end Step

/-! ### Runs -/

/-- In a run of calls under a clock that does not go backwards, every message is accounted for
exactly if all polls are timely. -/
theorem throughput_conserved_iff_timely {start : UInt64} {events : List Event}
    (h : Along step Forward (new start) events) :
    Along step Conserves (new start) events ↔ Along step Timely (new start) events := by
  refine along_iff_of_invariant (I := Inv) ?_ ?_ (inv_new start) h
  · intro s e hs hforward
    exact conserves_iff hs hforward
  · intro s e hs hforward htimely
    exact inv_step hs hforward htimely

theorem throughput_conserved_one_message :
    Along step Conserves (new 0) [.recordProcessedMessage, .updateAndGetRate 3] := by
  refine (throughput_conserved_iff_timely (by decide)).mpr ⟨trivial, ?_, trivial⟩
  rw [Timely, if_neg (by decide)]
  decide

/-- Two polls in one millisecond with a message in between, and a later one. -/
def lostMessage : List Event :=
  [.updateAndGetRate 1, .recordProcessedMessage, .updateAndGetRate 1, .updateAndGetRate 2]

/-- The message is in neither of the two intervals that are reported. -/
theorem message_lost_within_millisecond :
    Along step Forward (new 0) lostMessage ∧ ¬ Along step Conserves (new 0) lostMessage ∧
      (lostMessage.foldl step (new 0)).recordedAtReport = 1 ∧
      (lostMessage.foldl step (new 0)).reported = 0 := by
  have hreported : (lostMessage.foldl step (new 0)).reported = 0 := by decide
  refine ⟨by decide, fun h => ?_, by decide, hreported⟩
  have hacc : (lostMessage.foldl step (new 0)).reported = 1 := h.2.2.2.1.1
  omega

end Ledger

end ThroughputTracker
end RelayerCore
