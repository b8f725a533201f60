import Mathlib.Data.List.Basic
import Mathlib.Logic.Function.Iterate
import RelayerCore.Lib.Machine

/-!
# Registers with revisions

A register holds the value written last, under a revision above all that were given out before.
`put` writes in any case, `update` only over the revision it expects.  Clients read, update what
they have read, and put, in any order.

* `Serial`: every update of a log was based on the write just before it;
* `inv_of_reach`: the log of every run is serial;
* `current_eq_iterate`: updates by one function add up.
-/

/-- Revisions in the order in which they are given out; a register without a value has the first
one. -/
structure Revisions (R : Type*) where
  first : R
  next : R → Option R
  lt : R → R → Prop
  lt_irrefl : ∀ r, ¬ lt r r
  lt_trans : ∀ {r r' r''}, lt r r' → lt r' r'' → lt r r''
  lt_next : ∀ {r r'}, next r = some r' → lt r r'

namespace Revisions

variable {R : Type*} (revisions : Revisions R)

def le (r r' : R) : Prop := r = r' ∨ revisions.lt r r'

variable {revisions} {r r' r'' : R}

theorem lt_of_le_of_lt (h : revisions.le r r') (h' : revisions.lt r' r'') : revisions.lt r r'' := by
  rcases h with rfl | h
  · exact h'
  · exact revisions.lt_trans h h'

theorem ne_of_lt (h : revisions.lt r r') : r ≠ r' := by
  rintro rfl
  exact revisions.lt_irrefl r h

end Revisions

/-- The latest revision given out, and the value with its own. -/
structure Register (R V : Type*) where
  latest : R
  entry : Option (R × V)

namespace Register

open Machine

variable {ι R V : Type*} (revisions : Revisions R)

def empty : Register R V := ⟨revisions.first, none⟩

/-- The revision of what a client read. -/
def revisionOf (read : Option (R × V)) : R := (read.map Prod.fst).getD revisions.first

def put (reg : Register R V) (v : V) : Option (R × Register R V) :=
  (revisions.next reg.latest).map fun r => (r, ⟨r, some (r, v)⟩)

def update [DecidableEq R] (reg : Register R V) (expected : R) (v : V) :
    Option (R × Register R V) :=
  if revisionOf revisions reg.entry = expected then reg.put revisions v else none

/-- A revision is given out elsewhere. -/
def skip (reg : Register R V) : Option (Register R V) :=
  (revisions.next reg.latest).map fun r => { reg with latest := r }

/-- A write: an update with what its client had read, or a `put` (without a base). -/
structure Write (ι R V : Type*) where
  client : ι
  base : Option (Option (R × V))
  revision : R
  value : V
  deriving DecidableEq

/-- The register, what each client read last, and the writes, the latest first. -/
structure State (ι R V : Type*) where
  register : Register R V
  read : ι → Option (Option (R × V))
  log : List (Write ι R V)

def init : State ι R V := ⟨empty revisions, fun _ => none, []⟩

inductive Action (ι V : Type*)
  | get (i : ι)
  | update (i : ι) (v : V)
  | put (i : ι) (v : V)
  | skip

variable [DecidableEq ι] [DecidableEq R]

/-- The steps of the clients; an update that is refused is none. -/
def step (s : State ι R V) : Action ι V → Option (State ι R V)
  | .get i => some { s with read := Function.update s.read i (some s.register.entry) }
  | .update i v =>
    (s.read i).bind fun read =>
      (s.register.update revisions (revisionOf revisions read) v).map fun (r, register) =>
        { s with register, log := ⟨i, some read, r, v⟩ :: s.log }
  | .put i v =>
    (s.register.put revisions v).map fun (r, register) =>
      { s with register, log := ⟨i, none, r, v⟩ :: s.log }
  | .skip => (s.register.skip revisions).map fun register => { s with register }

/-! ### The log -/

/-- What the register holds after the writes. -/
def current (log : List (Write ι R V)) : Option (R × V) :=
  log.head?.map fun w => (w.revision, w.value)

/-- Every update was based on the write before it. -/
def Serial : List (Write ι R V) → Prop
  | [] => True
  | w :: earlier => (∀ read ∈ w.base, read = current earlier) ∧ Serial earlier

omit [DecidableEq ι] [DecidableEq R] in
theorem Serial.of_split {later earlier : List (Write ι R V)} {w : Write ι R V}
    (h : Serial (later ++ w :: earlier)) : ∀ read ∈ w.base, read = current earlier := by
  induction later with
  | nil => exact h.1
  | cons x later ih => exact ih h.2

omit [DecidableEq ι] [DecidableEq R] in
/-- Updates by one function add up: none is overwritten. -/
theorem current_eq_iterate {log : List (Write ι R V)} (h : Serial log) (f : Option V → V)
    (hf : ∀ w ∈ log, ∃ read, w.base = some read ∧ w.value = f (read.map Prod.snd)) :
    (current log).map Prod.snd = (fun v => some (f v))^[log.length] none := by
  induction log with
  | nil => rfl
  | cons w earlier ih =>
    obtain ⟨hw, hrest⟩ := List.forall_mem_cons.1 hf
    obtain ⟨read, hbase, hvalue⟩ := hw
    rw [List.length_cons, Function.iterate_succ_apply', ← ih h.2 hrest, ← h.1 read hbase, ← hvalue]
    rfl

structure Inv (s : State ι R V) : Prop where
  entry : s.register.entry = current s.log
  first : revisions.le revisions.first s.register.latest
  bounds : ∀ w ∈ s.log, revisions.lt revisions.first w.revision ∧
    revisions.le w.revision s.register.latest
  decreasing : s.log.Pairwise fun w w' => revisions.lt w'.revision w.revision
  read : ∀ i, ∀ e, s.read i = some (some e) → ∃ w ∈ s.log, e = (w.revision, w.value)
  serial : Serial s.log

variable {revisions} {s s' : State ι R V}

omit [DecidableEq ι] [DecidableEq R] in
theorem inv_init : Inv revisions (init revisions : State ι R V) where
  entry := rfl
  first := Or.inl rfl
  bounds _ h := by cases h
  decreasing := .nil
  read _ _ h := by cases h
  serial := trivial

omit [DecidableEq ι] [DecidableEq R] in
/-- What a client read is still there if its revision is. -/
theorem read_eq_entry (h : Inv revisions s) {i : ι} {read : Option (R × V)}
    (hread : s.read i = some read)
    (hrevision : revisionOf revisions s.register.entry = revisionOf revisions read) :
    read = current s.log := by
  rw [h.entry] at hrevision
  cases hlog : s.log with
  | nil =>
    rw [hlog] at hrevision
    cases read with
    | none => rfl
    | some e =>
      obtain ⟨w, hw, -⟩ := h.read i e hread
      rw [hlog] at hw
      cases hw
  | cons w earlier =>
    have hw := (h.bounds w (by simp [hlog])).1
    rw [hlog] at hrevision
    cases read with
    | none => exact absurd hrevision.symm (Revisions.ne_of_lt hw)
    | some e =>
      obtain ⟨w', hw', rfl⟩ := h.read i e hread
      rw [hlog] at hw'
      rcases List.mem_cons.1 hw' with rfl | hold
      · rfl
      · -- an older write has a smaller revision
        have hlt := List.rel_of_pairwise_cons (hlog ▸ h.decreasing) hold
        exact absurd hrevision.symm (Revisions.ne_of_lt hlt)

omit [DecidableEq ι] [DecidableEq R] in
/-- A write on what the register holds, or on nothing. -/
theorem inv_write (h : Inv revisions s) {i : ι} {base : Option (Option (R × V))} {v : V} {r : R}
    {register : Register R V} (hbase : ∀ read ∈ base, read = current s.log)
    (hput : s.register.put revisions v = some (r, register)) :
    Inv revisions { s with register, log := ⟨i, base, r, v⟩ :: s.log } := by
  obtain ⟨r', hnext, heq⟩ := Option.map_eq_some_iff.1 hput
  cases heq
  have hfirst := Revisions.lt_of_le_of_lt h.first (revisions.lt_next hnext)
  have hold : ∀ w ∈ s.log, revisions.lt w.revision r := fun w hw =>
    Revisions.lt_of_le_of_lt (h.bounds w hw).2 (revisions.lt_next hnext)
  refine ⟨rfl, Or.inr hfirst, List.forall_mem_cons.2 ⟨⟨hfirst, Or.inl rfl⟩, ?_⟩,
    List.pairwise_cons.2 ⟨hold, h.decreasing⟩, ?_, hbase, h.serial⟩
  · exact fun w hw => ⟨(h.bounds w hw).1, Or.inr (hold w hw)⟩
  · intro j e hj
    obtain ⟨w, hw, he⟩ := h.read j e hj
    exact ⟨w, List.mem_cons_of_mem _ hw, he⟩

theorem inv_step {a : Action ι V} (h : Inv revisions s) (hs : step revisions s a = some s') :
    Inv revisions s' := by
  cases a with
  | get i =>
    cases hs
    refine ⟨h.entry, h.first, h.bounds, h.decreasing, fun j e hj => ?_, h.serial⟩
    dsimp only at hj
    by_cases hji : j = i
    · subst hji
      rw [Function.update_self, Option.some_inj, h.entry, current, Option.map_eq_some_iff] at hj
      obtain ⟨w, hw, rfl⟩ := hj
      exact ⟨w, List.mem_of_mem_head? hw, rfl⟩
    · rw [Function.update_of_ne hji] at hj
      exact h.read j e hj
  | update i v =>
    obtain ⟨read, hread, hs⟩ := Option.bind_eq_some_iff.1 hs
    obtain ⟨⟨r, register⟩, hupdate, rfl⟩ := Option.map_eq_some_iff.1 hs
    obtain ⟨hrevision, hput⟩ := Option.ite_none_right_eq_some.1 hupdate
    refine inv_write h ?_ hput
    rintro _ ⟨⟩
    exact read_eq_entry h hread hrevision
  | put i v =>
    obtain ⟨⟨r, register⟩, hput, rfl⟩ := Option.map_eq_some_iff.1 hs
    exact inv_write h (by simp) hput
  | skip =>
    obtain ⟨register, hskip, rfl⟩ := Option.map_eq_some_iff.1 hs
    obtain ⟨r, hnext, rfl⟩ := Option.map_eq_some_iff.1 hskip
    have hlt : ∀ {r'}, revisions.le r' s.register.latest → revisions.le r' r := fun hle =>
      Or.inr (Revisions.lt_of_le_of_lt hle (revisions.lt_next hnext))
    exact ⟨h.entry, hlt h.first, fun w hw => ⟨(h.bounds w hw).1, hlt (h.bounds w hw).2⟩,
      h.decreasing, h.read, h.serial⟩

theorem inv_of_reach (h : Reach (ofFn (step revisions)) (init revisions) s) : Inv revisions s :=
  h.invariant inv_init fun _ _ _ => inv_step

end Register
