import Mathlib.Tactic

/-!
# Custody of items

Items are stored for good; an item is settled once and for all, and until then it should be held by
some holder.  `Kept` says that it is.  Holders come and go and let items fall: `kept_iff_of_holder`
says exactly when such a change is harmless.
-/

/-- The items, the settled ones, and what every holder holds. -/
structure Custody (ν α : Type*) where
  items : Set α
  settled : Set α
  holds : ν → Set α

namespace Custody

variable {ν α : Type*} {c c' : Custody ν α}

/-- Every item is settled or held by someone. -/
def Kept (c : Custody ν α) : Prop := ∀ a ∈ c.items, a ∈ c.settled ∨ ∃ n, a ∈ c.holds n

theorem Kept.mono (h : c.Kept) (hitems : c'.items ⊆ c.items) (hsettled : c.settled ⊆ c'.settled)
    (hholds : ∀ n, c.holds n ⊆ c'.holds n) : c'.Kept := by
  intro a ha
  rcases h a (hitems ha) with hs | ⟨n, hn⟩
  · exact Or.inl (hsettled hs)
  · exact Or.inr ⟨n, hholds n hn⟩

/-- A new item is kept if it is taken care of at once. -/
theorem kept_iff_of_insert {a : α} (h : c.Kept) (hitems : c'.items = insert a c.items)
    (hsettled : c'.settled = c.settled) (hholds : c'.holds = c.holds) :
    c'.Kept ↔ a ∈ c.settled ∨ ∃ n, a ∈ c.holds n := by
  unfold Kept
  rw [hitems, hsettled, hholds]
  constructor
  · intro h'
    exact h' a (Set.mem_insert a _)
  · rintro ha b (rfl | hb)
    · exact ha
    · exact h b hb

/-- A change of what one holder holds is harmless exactly if every item it lets fall is settled by
then, or held by another. -/
theorem kept_iff_of_holder {n : ν} (h : c.Kept) (hitems : c'.items = c.items)
    (hsettled : c.settled ⊆ c'.settled) (hholds : ∀ m, m ≠ n → c'.holds m = c.holds m) :
    c'.Kept ↔ ∀ a ∈ c.items, a ∈ c.holds n → a ∉ c'.holds n →
      a ∈ c'.settled ∨ ∃ m, m ≠ n ∧ a ∈ c.holds m := by
  constructor
  · intro h' a ha _ hno
    rcases h' a (hitems ▸ ha) with hs | ⟨m, hm⟩
    · exact Or.inl hs
    · have hmn : m ≠ n := by
        rintro rfl
        exact hno hm
      exact Or.inr ⟨m, hmn, hholds m hmn ▸ hm⟩
  · intro hfall a ha
    rw [hitems] at ha
    rcases h a ha with hs | ⟨m, hm⟩
    · exact Or.inl (hsettled hs)
    by_cases hmn : m = n
    · subst hmn
      by_cases hm' : a ∈ c'.holds m
      · exact Or.inr ⟨m, hm'⟩
      · rcases hfall a ha hm hm' with hs | ⟨k, hk, hak⟩
        · exact Or.inl hs
        · exact Or.inr ⟨k, by rw [hholds k hk]; exact hak⟩
    · exact Or.inr ⟨m, by rw [hholds m hmn]; exact hm⟩

end Custody
