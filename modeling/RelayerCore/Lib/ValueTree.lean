import Mathlib.Tactic

/-!
# Trees of values

A value, or a table from keys to trees.  A path of keys leads to a subtree; setting a path makes the
tables on its way.
-/

/-- A tree with keys in `K` and values in `V`. -/
inductive ValueTree (K V : Type)
  | value (v : V)
  | table (entries : List (K × ValueTree K V))

namespace ValueTree

variable {K V : Type}

section Paths

variable {k k' : K} {path path' : List K}

/-- One of two paths goes through the end of the other. -/
def Comparable (path path' : List K) : Prop := path <+: path' ∨ path' <+: path

theorem comparable_nil (path : List K) : Comparable path [] := Or.inr List.nil_prefix

theorem nil_comparable (path : List K) : Comparable [] path := Or.inl List.nil_prefix

theorem cons_comparable_cons :
    Comparable (k :: path) (k' :: path') ↔ k = k' ∧ Comparable path path' := by
  unfold Comparable
  rw [List.cons_prefix_cons, List.cons_prefix_cons, and_or_left]
  rw [eq_comm (a := k') (b := k)]

end Paths

variable [DecidableEq K]

/-- The empty table. -/
def empty : ValueTree K V := .table []

/-- The entries of a table; a value has none. -/
def entries : ValueTree K V → List (K × ValueTree K V)
  | .value _ => []
  | .table entries => entries

/-- The subtree at a path. -/
def get (t : ValueTree K V) : List K → Option (ValueTree K V)
  | [] => some t
  | k :: path =>
    match t.entries.lookup k with
    | some child => child.get path
    | none => none

/-- The tree with another subtree at a path; a value on the way gives place to a table. -/
def set (t : ValueTree K V) (new : ValueTree K V) : List K → ValueTree K V
  | [] => new
  | k :: path =>
    let child := (t.entries.lookup k).getD empty
    .table ((k, child.set new path) :: t.entries.filter (·.1 ≠ k))

variable {t new child : ValueTree K V} {k k' : K} {path path' : List K} {v v' : V}

theorem lookup_filter_ne (h : k' ≠ k) (entries : List (K × ValueTree K V)) :
    (entries.filter (·.1 ≠ k)).lookup k' = entries.lookup k' := by
  induction entries with
  | nil => rfl
  | cons entry rest ih =>
    by_cases hk : entry.1 = k
    · have hne : (k' == entry.1) = false := by simpa [hk] using h
      rw [List.filter_cons_of_neg (by simpa using hk), ih, List.lookup_cons, hne]
    · rw [List.filter_cons_of_pos (by simpa using hk), List.lookup_cons, List.lookup_cons, ih]

/-- Below another key nothing changes. -/
theorem get_set_of_ne (h : k' ≠ k) (t new : ValueTree K V) (path path' : List K) :
    (t.set new (k :: path)).get (k' :: path') = t.get (k' :: path') := by
  have hne : (k' == k) = false := by simpa using h
  have hlookup : (t.set new (k :: path)).entries.lookup k' = t.entries.lookup k' := by
    show List.lookup k' ((k, _) :: t.entries.filter (·.1 ≠ k)) = _
    rw [List.lookup_cons, hne]
    exact lookup_filter_ne h _
  unfold get
  rw [hlookup]

/-- Below the same key, the child is set. -/
theorem get_set_cons (t new : ValueTree K V) (k : K) (path path' : List K) :
    (t.set new (k :: path)).get (k :: path') =
      (((t.entries.lookup k).getD empty).set new path).get path' := by
  have hlookup : (t.set new (k :: path)).entries.lookup k =
      some (((t.entries.lookup k).getD empty).set new path) := List.lookup_cons_self
  rw [get, hlookup]

theorem get_empty_ne_value (path : List K) (v : V) : empty.get path ≠ some (.value v) := by
  cases path with
  | nil => simp [get, empty]
  | cons k path => simp [get, entries, empty]

/-- A value below a key is a value of the child; a missing child has none. -/
theorem get_cons_eq_value_iff : t.get (k :: path) = some (.value v) ↔
    ((t.entries.lookup k).getD empty).get path = some (.value v) := by
  rw [get]
  cases t.entries.lookup k with
  | none => exact iff_of_false (by simp) (get_empty_ne_value path v)
  | some child => rfl

/-- Setting a value leaves the values at the incomparable paths, and no other. -/
theorem get_set_eq_value_iff :
    (t.set (.value v) path).get path' = some (.value v') ↔
      path' = path ∧ v' = v ∨ ¬ Comparable path' path ∧ t.get path' = some (.value v') := by
  induction path generalizing t path' with
  | nil =>
    cases path' with
    | nil => simp [set, get, eq_comm, comparable_nil]
    | cons k' path' => simp [set, get, entries, comparable_nil]
  | cons k path ih =>
    cases path' with
    | nil => simp [set, get, nil_comparable]
    | cons k' path' =>
      by_cases hk : k' = k
      · subst hk
        rw [get_set_cons, ih, get_cons_eq_value_iff, cons_comparable_cons, List.cons.injEq]
        simp only [true_and]
      · rw [get_set_of_ne hk, cons_comparable_cons, List.cons.injEq]
        simp [hk]

end ValueTree
