import RelayerCore.Lib.Machine
import RelayerCore.Lib.Feed

/-!
# Resuming from a cursor without skipping

The abstract purpose of a reader that resumes a feed from a stored cursor: the feed grows, entries
get done in any order, and the cursor may be set, forwards or backwards, to any position whose
whole past is done.  Restarting from such a cursor never skips an entry.  A concrete reader is
shown safe by refining this machine.
-/

namespace Cursor

open Machine

variable {α κ : Type*} [DecidableEq κ] {key : α → κ}

/-- A feed, the entries done so far, and the stored cursor. -/
structure State (key : α → κ) where
  feed : Feed key
  done : Set α
  cursor : Option κ

/-- What can happen to the reader. -/
inductive Move (α κ : Type*)
  | list (a : α)
  | finish (a : α)
  | seek (c : Option κ)

/-- The steps: the cursor moves only to covered positions. -/
def Step (s : State key) : Move α κ → State key → Prop
  | .list a, s' => ∃ h : key a ∉ s.feed.keys, s' = { s with feed := s.feed.push a h }
  | .finish a, s' => s' = { s with done := insert a s.done }
  | .seek c, s' => s.feed.Covers s.done c ∧ s' = { s with cursor := c }

/-- Nothing at or before the stored cursor is left undone. -/
def Safe (s : State key) : Prop := s.feed.Covers s.done s.cursor

theorem safe_step {s s' : State key} {m : Move α κ} (h : Safe s) (hs : Step s m s') :
    Safe s' := by
  cases m with
  | list a =>
    obtain ⟨ha, rfl⟩ := hs
    exact h.push ha
  | finish a =>
    cases hs
    exact h.mono (Set.subset_insert a s.done)
  | seek c =>
    obtain ⟨hc, rfl⟩ := hs
    exact hc

theorem safe_of_reach {s₀ s : State key} (h0 : Safe s₀) (h : Reach Step s₀ s) : Safe s :=
  h.invariant h0 fun _ _ _ => safe_step

/-- A machine refines the cursor machine if each of its steps is a run of it, as long as the cursor
is covered and an invariant holds that the steps keep. -/
theorem refines_of_step {σ β : Type*} {T : σ → β → σ → Prop} {abs : σ → State key} {P : σ → Prop}
    (h : ∀ s a s', Safe (abs s) → P s → T s a s' → P s' ∧ Reach Step (abs s) (abs s')) :
    Refines T Step abs fun s => Safe (abs s) ∧ P s where
  preserves s a s' := by
    rintro ⟨hsafe, hP⟩ hs
    obtain ⟨hP', hr⟩ := h s a s' hsafe hP hs
    exact ⟨safe_of_reach hsafe hr, hP'⟩
  simulates s a s' := by
    rintro ⟨hsafe, hP⟩ hs
    exact (h s a s' hsafe hP hs).2

/-- A machine that refines the cursor machine keeps its cursor covered. -/
theorem safe_of_refines {σ β : Type*} {T : σ → β → σ → Prop} {abs : σ → State key}
    {Inv : σ → Prop} (hR : Refines T Step abs Inv) {s₀ s : σ} (hi : Inv s₀)
    (h0 : Safe (abs s₀)) (h : Reach T s₀ s) : Safe (abs s) :=
  safe_of_reach h0 (hR.reach hi h).2

end Cursor
