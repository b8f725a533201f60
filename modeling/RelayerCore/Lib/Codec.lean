import Mathlib.Tactic

/-!
# Prefix codecs

A codec writes a value as bytes and reads it back from the front of a longer input, leaving what
follows.  `Fits` tells which values its format has room for.  The codecs of compound formats are
made of those of their parts: numbers of a fixed width, pairs, optional values and lists behind a
flag or a length, and formats that are checked or converted after they are read.
-/

/-- A way to write values of type `α` and to read them back. -/
structure Codec (α : Type) where
  serialize : α → List UInt8
  deserialize : List UInt8 → Option (α × List UInt8)
  Fits : α → Prop
  deserialize_serialize : ∀ a, Fits a → ∀ rest, deserialize (serialize a ++ rest) = some (a, rest)

namespace Codec

variable {α β : Type}

/-! ### Numbers -/

/-- The `n` lowest bytes of a number, the lowest first. -/
def toBytes : ℕ → ℕ → List UInt8
  | 0, _ => []
  | n + 1, k => UInt8.ofNat k :: toBytes n (k / 256)

def ofBytes : List UInt8 → ℕ
  | [] => 0
  | b :: bytes => b.toNat + 256 * ofBytes bytes

@[simp] theorem length_toBytes (n k : ℕ) : (toBytes n k).length = n := by
  induction n generalizing k with
  | zero => rfl
  | succ n ih => simp [toBytes, ih]

theorem ofBytes_toBytes (n k : ℕ) : ofBytes (toBytes n k) = k % 256 ^ n := by
  induction n generalizing k with
  | zero => simp [toBytes, ofBytes, Nat.mod_one]
  | succ n ih =>
    have hbyte : (UInt8.ofNat k).toNat = k % 256 := by simp
    rw [toBytes, ofBytes, ih, hbyte, Nat.pow_succ, Nat.mul_comm (256 ^ n) 256, Nat.mod_mul]

/-- The first `n` bytes, and the others. -/
def split (n : ℕ) (bytes : List UInt8) : Option (List UInt8 × List UInt8) :=
  if n ≤ bytes.length then some (bytes.take n, bytes.drop n) else none

theorem split_append {n : ℕ} {bytes rest : List UInt8} (h : bytes.length = n) :
    split n (bytes ++ rest) = some (bytes, rest) := by
  unfold split
  rw [if_pos (by simp [h]), List.take_left' h, List.drop_left' h]

/-- A number in `n` bytes, the lowest byte first. -/
def nat (n : ℕ) : Codec ℕ where
  serialize k := toBytes n k
  deserialize bytes := (split n bytes).map fun p => (ofBytes p.1, p.2)
  Fits k := k < 256 ^ n
  deserialize_serialize k hk rest := by
    rw [split_append (length_toBytes n k)]
    simp [ofBytes_toBytes, Nat.mod_eq_of_lt hk]

/-! ### Composition -/

/-- One value after the other. -/
def pair (c : Codec α) (d : Codec β) : Codec (α × β) where
  serialize p := c.serialize p.1 ++ d.serialize p.2
  deserialize bytes := do
    let (a, bytes) ← c.deserialize bytes
    let (b, bytes) ← d.deserialize bytes
    return ((a, b), bytes)
  Fits p := c.Fits p.1 ∧ d.Fits p.2
  deserialize_serialize p hp rest := by
    simp [List.append_assoc, c.deserialize_serialize p.1 hp.1, d.deserialize_serialize p.2 hp.2]

/-- A value written as another one, from which it is recovered if it passes a check. -/
def check (c : Codec α) (write : β → α) (read : α → Option β) (P : β → Prop)
    (h : ∀ b, P b → read (write b) = some b) : Codec β where
  serialize b := c.serialize (write b)
  deserialize bytes := do
    let (a, bytes) ← c.deserialize bytes
    let b ← read a
    return (b, bytes)
  Fits b := P b ∧ c.Fits (write b)
  deserialize_serialize b hb rest := by
    simp [c.deserialize_serialize (write b) hb.2, h b hb.1]

/-- A value written as another one that stands for it. -/
def via (c : Codec α) (write : β → α) (read : α → β) (h : ∀ b, read (write b) = b) : Codec β where
  serialize b := c.serialize (write b)
  deserialize bytes := (c.deserialize bytes).map fun p => (read p.1, p.2)
  Fits b := c.Fits (write b)
  deserialize_serialize b hb rest := by
    simp [c.deserialize_serialize (write b) hb, h b]

/-- An optional value behind a flag. -/
def option (c : Codec α) : Codec (Option α) where
  serialize
    | none => [0]
    | some a => 1 :: c.serialize a
  deserialize
    | 0 :: bytes => some (none, bytes)
    | 1 :: bytes => (c.deserialize bytes).map fun p => (some p.1, p.2)
    | _ => none
  Fits o := ∀ a ∈ o, c.Fits a
  deserialize_serialize o ho rest := by
    cases o with
    | none => rfl
    | some a => simp [c.deserialize_serialize a (ho a rfl)]

@[simp] theorem fits_pair {c : Codec α} {d : Codec β} {p : α × β} :
    (c.pair d).Fits p ↔ c.Fits p.1 ∧ d.Fits p.2 := Iff.rfl

@[simp] theorem fits_via {c : Codec α} {write : β → α} {read : α → β}
    {h : ∀ b, read (write b) = b} {b : β} : (c.via write read h).Fits b ↔ c.Fits (write b) :=
  Iff.rfl

@[simp] theorem fits_option {c : Codec α} {o : Option α} :
    c.option.Fits o ↔ ∀ a ∈ o, c.Fits a := Iff.rfl

/-! ### Lists -/

/-- Read `n` values. -/
def many (c : Codec α) : ℕ → List UInt8 → Option (List α × List UInt8)
  | 0, bytes => some ([], bytes)
  | n + 1, bytes => do
    let (a, bytes) ← c.deserialize bytes
    let (as, bytes) ← many c n bytes
    return (a :: as, bytes)

theorem many_serialize (c : Codec α) {as : List α} (has : ∀ a ∈ as, c.Fits a) (rest : List UInt8) :
    many c as.length (as.flatMap c.serialize ++ rest) = some (as, rest) := by
  induction as with
  | nil => rfl
  | cons a as ih =>
    obtain ⟨ha, has⟩ := List.forall_mem_cons.mp has
    simp [many, List.append_assoc, c.deserialize_serialize a ha, ih has]

/-- A list behind its length, a number of four bytes. -/
def list (c : Codec α) : Codec (List α) where
  serialize as := (nat 4).serialize as.length ++ as.flatMap c.serialize
  deserialize bytes := do
    let (n, bytes) ← (nat 4).deserialize bytes
    many c n bytes
  Fits as := as.length < 2 ^ 32 ∧ ∀ a ∈ as, c.Fits a
  deserialize_serialize as has rest := by
    have hlength := (nat 4).deserialize_serialize as.length has.1
    simp [List.append_assoc, hlength, many_serialize c has.2]

@[simp] theorem fits_list {c : Codec α} {as : List α} :
    c.list.Fits as ↔ as.length < 2 ^ 32 ∧ ∀ a ∈ as, c.Fits a := Iff.rfl

end Codec
