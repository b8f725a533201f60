import Mathlib.Data.List.Nodup

/-!
# Lists whose elements are told apart by a key

No two places of the list hold elements with one key, so an element that is replaced or removed by
its place leaves all the others alone.

* `mem_set_cases`, `mem_set_of_ne`, `mem_eraseIdx_of_ne`: what is there after a change;
* `map_set`: replacing an element by one with its key keeps the keys;
* `idxOf_eraseIdx`: removing an element brings those behind it closer to the first place.
-/

namespace Keyed

variable {α κ : Type*} {key : α → κ} {xs : List α} {x x' y : α} {n m : ℕ}

theorem eq_or_ne (hnodup : (xs.map key).Nodup) (hx : x ∈ xs) (hy : y ∈ xs) :
    y = x ∨ key y ≠ key x := by
  by_cases hkey : key y = key x
  · exact Or.inl (List.inj_on_of_nodup_map hnodup hy hx hkey)
  · exact Or.inr hkey

/-- Other places hold other keys. -/
theorem ne_of_getElem? (hnodup : (xs.map key).Nodup) (hn : xs[n]? = some x) (hm : xs[m]? = some y)
    (hne : m ≠ n) : key y ≠ key x := by
  intro hkey
  have hlt : m < (xs.map key).length := by
    rw [List.length_map]
    exact (List.getElem?_eq_some_iff.1 hm).1
  refine hne ((List.getElem?_inj hlt hnodup).1 ?_)
  rw [List.getElem?_map, List.getElem?_map, hn, hm, Option.map_some, Option.map_some, hkey]

theorem place_ne (hn : xs[n]? = some x) (hm : xs[m]? = some y) (hne : key y ≠ key x) : m ≠ n := by
  rintro rfl
  rw [hn] at hm
  cases hm
  exact hne rfl

theorem mem_set_cases (hnodup : (xs.map key).Nodup) (hn : xs[n]? = some x)
    (h : y ∈ xs.set n x') : y = x' ∨ y ∈ xs ∧ key y ≠ key x := by
  obtain ⟨m, hm⟩ := List.mem_iff_getElem?.1 h
  by_cases hmn : n = m
  · subst hmn
    rw [List.getElem?_set_self (List.getElem?_eq_some_iff.1 hn).1] at hm
    exact Or.inl (Option.some.inj hm).symm
  · rw [List.getElem?_set_ne hmn] at hm
    exact Or.inr ⟨List.mem_of_getElem? hm, ne_of_getElem? hnodup hn hm (Ne.symm hmn)⟩

theorem mem_set_of_ne (hn : xs[n]? = some x) (hy : y ∈ xs) (hne : key y ≠ key x) :
    y ∈ xs.set n x' := by
  obtain ⟨m, hm⟩ := List.mem_iff_getElem?.1 hy
  refine List.mem_iff_getElem?.2 ⟨m, ?_⟩
  rwa [List.getElem?_set_ne (Ne.symm (place_ne hn hm hne))]

theorem mem_eraseIdx_of_ne (hn : xs[n]? = some x) (hy : y ∈ xs) (hne : key y ≠ key x) :
    y ∈ xs.eraseIdx n := by
  obtain ⟨m, hm⟩ := List.mem_iff_getElem?.1 hy
  exact List.mem_eraseIdx_iff_getElem?.2 ⟨m, place_ne hn hm hne, hm⟩

theorem set_of_getElem? (h : xs[n]? = some x) : xs.set n x = xs := by
  obtain ⟨hlt, rfl⟩ := List.getElem?_eq_some_iff.1 h
  exact List.set_getElem_self hlt

theorem map_set (hn : xs[n]? = some x) (hkey : key x' = key x) :
    (xs.set n x').map key = xs.map key := by
  rw [List.map_set, hkey]
  exact set_of_getElem? (by rw [List.getElem?_map, hn, Option.map_some])

/-! ### Places -/

variable [DecidableEq α]

theorem idxOf_of_getElem? (hnodup : xs.Nodup) (h : xs[n]? = some x) : xs.idxOf x = n := by
  obtain ⟨hlt, rfl⟩ := List.getElem?_eq_some_iff.1 h
  exact hnodup.idxOf_getElem n hlt

/-- Removing another element brings an element closer to the first place, or leaves it where it is
behind the first. -/
theorem idxOf_eraseIdx (hnodup : xs.Nodup) (hx : x ∈ xs) (hn : xs[n]? ≠ some x) :
    (xs.eraseIdx n).idxOf x < xs.idxOf x ∨ n ≠ 0 ∧ (xs.eraseIdx n).idxOf x = xs.idxOf x := by
  have hget : xs[xs.idxOf x]? = some x := List.getElem?_idxOf hx
  have hne : n ≠ xs.idxOf x := by
    rintro rfl
    exact hn hget
  have hnodup' : (xs.eraseIdx n).Nodup := hnodup.sublist (List.eraseIdx_sublist _ _)
  rcases Nat.lt_or_gt_of_ne hne with hlt | hgt
  · have hsucc : xs.idxOf x - 1 + 1 = xs.idxOf x := Nat.sub_add_cancel (by omega)
    have hget' : (xs.eraseIdx n)[xs.idxOf x - 1]? = some x := by
      rw [List.getElem?_eraseIdx_of_ge (by omega), hsucc, hget]
    rw [idxOf_of_getElem? hnodup' hget']
    exact Or.inl (by omega)
  · have hget' : (xs.eraseIdx n)[xs.idxOf x]? = some x := by
      rw [List.getElem?_eraseIdx_of_lt hgt, hget]
    exact Or.inr ⟨by omega, idxOf_of_getElem? hnodup' hget'⟩

end Keyed
