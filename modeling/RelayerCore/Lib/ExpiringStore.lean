import Mathlib.Tactic

/-!
# A key store with expiry

A store that remembers for each key until when it exists.  `setEx k now ttl` makes a key exist
from `now` for a time `ttl`, whatever it was before; nothing else is said about the values.
-/

/-- For each key that was ever set, the time at which it expires. -/
structure ExpiringStore (κ : Type*) where
  expiry : κ → Option ℕ

namespace ExpiringStore

variable {κ : Type*}

/-- The store without keys. -/
def empty : ExpiringStore κ := ⟨fun _ => none⟩

/-- The key exists at the given time. -/
def contains (s : ExpiringStore κ) (k : κ) (now : ℕ) : Bool :=
  (s.expiry k).any fun e => now < e

theorem contains_of_expiry {s : ExpiringStore κ} {k : κ} {now e : ℕ} (h : s.expiry k = some e) :
    s.contains k now = true ↔ now < e := by
  simp [contains, h]

theorem expiry_of_contains {s : ExpiringStore κ} {k : κ} {now : ℕ}
    (h : s.contains k now = true) : ∃ e, s.expiry k = some e ∧ now < e := by
  cases he : s.expiry k with
  | none => simp [contains, he] at h
  | some e => exact ⟨e, rfl, (contains_of_expiry he).1 h⟩

variable [DecidableEq κ]

/-- `SETEX`: the key exists until `now + ttl`. -/
def setEx (s : ExpiringStore κ) (k : κ) (now ttl : ℕ) : ExpiringStore κ :=
  ⟨Function.update s.expiry k (some (now + ttl))⟩

@[simp] theorem expiry_setEx_self (s : ExpiringStore κ) (k : κ) (now ttl : ℕ) :
    (s.setEx k now ttl).expiry k = some (now + ttl) := by
  simp [setEx]

theorem expiry_setEx_of_ne (s : ExpiringStore κ) {k k' : κ} (h : k' ≠ k) (now ttl : ℕ) :
    (s.setEx k now ttl).expiry k' = s.expiry k' := by
  simp [setEx, h]

/-- A key that exists at least until `t + ttl` still does when any key is set anew later. -/
theorem exists_expiry_setEx {s : ExpiringStore κ} {k : κ} {t now ttl : ℕ}
    (h : ∃ e, s.expiry k = some e ∧ t + ttl ≤ e) (ht : t ≤ now) (k' : κ) :
    ∃ e, (s.setEx k' now ttl).expiry k = some e ∧ t + ttl ≤ e := by
  by_cases hk : k = k'
  · subst hk
    exact ⟨now + ttl, by simp, by omega⟩
  · rw [expiry_setEx_of_ne s hk]
    exact h

/-- Every key of the new store is the one just set, or was there before. -/
theorem expiry_setEx_cases {s : ExpiringStore κ} {k k' : κ} {now ttl e : ℕ}
    (h : (s.setEx k now ttl).expiry k' = some e) : k' = k ∨ s.expiry k' = some e := by
  by_cases hk : k' = k
  · exact Or.inl hk
  · rw [expiry_setEx_of_ne s hk] at h
    exact Or.inr h

end ExpiringStore
