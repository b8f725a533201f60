import Mathlib.Tactic
import Mathlib.Data.Set.Insert

/-!
# Append-only feeds and resume cursors

A feed is a list of entries with distinct keys that only grows at its end.  A reader keeps a
cursor, the key of an entry (or `none` before the first one), and asks for the entries after it.

* `Feed key`, `Feed.push`: the feed, and its growth by one entry with a new key;
* `upTo c`, `after c`: the entries at or before the cursor, and those strictly after it;
* `Covers f S c`: the cursor `c` points into the feed and everything at or before it is in `S`;
* `Chained f S l`: working through `l` in order, each entry finds everything before it already
  in `S` or earlier in `l`.  A slice of the feed after a covered cursor is chained
  (`chained_take_after`), and each entry of a chained list that has been worked through is a
  covered cursor (`Chained.covers`).
-/

variable {α κ : Type*}

/-- Two different lists of one length part at some position. -/
theorem List.exists_split_of_ne {l m : List α} (hlen : l.length = m.length) (hne : l ≠ m) :
    ∃ p x y q r, l = p ++ x :: q ∧ m = p ++ y :: r ∧ x ≠ y := by
  induction l generalizing m with
  | nil => exact absurd (List.length_eq_zero_iff.1 hlen.symm).symm hne
  | cons a l ih =>
    obtain _ | ⟨b, m⟩ := m
    · cases hlen
    by_cases hab : a = b
    · subst hab
      have hlm : l ≠ m := fun h => hne (by rw [h])
      obtain ⟨p, x, y, q, r, rfl, rfl, hxy⟩ := ih (Nat.succ.inj hlen) hlm
      exact ⟨a :: p, x, y, q, r, rfl, rfl, hxy⟩
    · exact ⟨[], a, b, l, m, rfl, rfl, hab⟩

/-- A list of entries with distinct keys. -/
structure Feed (key : α → κ) where
  entries : List α
  nodup : (entries.map key).Nodup

namespace Feed

variable {key : α → κ}

/-! ### Feeds -/

/-- The feed that lists nothing. -/
def empty : Feed key := ⟨[], List.nodup_nil⟩

/-- The keys listed so far. -/
def keys (f : Feed key) : List κ := f.entries.map key

/-- The feed grown by one entry with a new key. -/
def push (f : Feed key) (a : α) (h : key a ∉ f.keys) : Feed key where
  entries := f.entries ++ [a]
  nodup := by
    rw [List.map_append, List.map_singleton, ← List.concat_eq_append]
    exact f.nodup.concat h

@[simp] theorem push_entries (f : Feed key) (a : α) (h : key a ∉ f.keys) :
    (f.push a h).entries = f.entries ++ [a] := rfl

/-- Entries are determined by their keys. -/
theorem eq_of_key_eq {f : Feed key} {a b : α} (ha : a ∈ f.entries) (hb : b ∈ f.entries)
    (h : key a = key b) : a = b :=
  List.inj_on_of_nodup_map f.nodup ha hb h

theorem key_notMem_of_split {f : Feed key} {p q : List α} {a : α}
    (h : f.entries = p ++ a :: q) : key a ∉ p.map key := by
  have hn := f.nodup
  rw [h, List.map_append, List.map_cons, List.nodup_append] at hn
  intro hmem
  exact hn.2.2 _ hmem _ List.mem_cons_self rfl

variable [DecidableEq κ]

/-- Growth as a partial operation: an entry whose key is listed already is refused. -/
def push? (f : Feed key) (a : α) : Option (Feed key) :=
  if h : key a ∈ f.keys then none else some (f.push a h)

theorem push?_eq_some {f g : Feed key} {a : α} :
    f.push? a = some g ↔ ∃ h : key a ∉ f.keys, g = f.push a h := by
  unfold push?
  split_ifs with h <;> simp [h, eq_comm]

/-! ### Cutting a list behind a key -/

/-- The entries up to and including the first one with key `k`. -/
def takeUpTo (key : α → κ) (k : κ) : List α → List α
  | [] => []
  | a :: l => if key a = k then [a] else a :: takeUpTo key k l

/-- The entries behind the first one with key `k`. -/
def dropUpTo (key : α → κ) (k : κ) : List α → List α
  | [] => []
  | a :: l => if key a = k then l else dropUpTo key k l

theorem takeUpTo_append_dropUpTo (k : κ) (l : List α) :
    takeUpTo key k l ++ dropUpTo key k l = l := by
  induction l with
  | nil => rfl
  | cons a l ih =>
    unfold takeUpTo dropUpTo
    split_ifs with h
    · rfl
    · rw [List.cons_append, ih]

theorem takeUpTo_split {p q : List α} {a : α} (h : key a ∉ p.map key) :
    takeUpTo key (key a) (p ++ a :: q) = p ++ [a] := by
  induction p with
  | nil => simp [takeUpTo]
  | cons b p ih =>
    rw [List.map_cons, List.mem_cons, not_or] at h
    rw [List.cons_append, takeUpTo, if_neg (Ne.symm h.1), ih h.2, List.cons_append]

theorem takeUpTo_append {k : κ} {l m : List α} (h : k ∈ l.map key) :
    takeUpTo key k (l ++ m) = takeUpTo key k l := by
  induction l with
  | nil => simp at h
  | cons a l ih =>
    simp only [List.cons_append, takeUpTo]
    split_ifs with ha
    · rfl
    · rw [ih]
      rw [List.map_cons, List.mem_cons] at h
      exact h.resolve_left (Ne.symm ha)

/-! ### Cursors -/

/-- The entries at or before a cursor. -/
def upTo (f : Feed key) : Option κ → List α
  | none => []
  | some k => takeUpTo key k f.entries

/-- The entries strictly after a cursor. -/
def after (f : Feed key) : Option κ → List α
  | none => f.entries
  | some k => dropUpTo key k f.entries

theorem upTo_append_after (f : Feed key) (c : Option κ) : f.upTo c ++ f.after c = f.entries := by
  cases c with
  | none => rfl
  | some k => exact takeUpTo_append_dropUpTo k f.entries

theorem upTo_of_split {f : Feed key} {p q : List α} {a : α}
    (h : f.entries = p ++ a :: q) : f.upTo (some (key a)) = p ++ [a] := by
  rw [upTo, h, takeUpTo_split (key_notMem_of_split h)]

theorem upTo_sublist (f : Feed key) (c : Option κ) : (f.upTo c).Sublist f.entries := by
  rw [← f.upTo_append_after c]
  exact List.sublist_append_left _ _

/-- Moving the cursor to the last of the first entries after it. -/
theorem upTo_last_take_after {f : Feed key} {c : Option κ} {n : ℕ} {a : α}
    (h : ((f.after c).take n).getLast? = some a) :
    f.upTo (some (key a)) = f.upTo c ++ (f.after c).take n ∧ key a ∈ f.keys := by
  obtain ⟨m, hm⟩ := List.getLast?_eq_some_iff.1 h
  have hsplit : f.entries = (f.upTo c ++ m) ++ a :: (f.after c).drop n := by
    have hall := f.upTo_append_after c
    rw [← List.take_append_drop n (f.after c), hm] at hall
    simpa using hall.symm
  refine ⟨by rw [upTo_of_split hsplit, hm, List.append_assoc], ?_⟩
  rw [keys, hsplit]
  simp

theorem upTo_push {f : Feed key} {a : α} (h : key a ∉ f.keys) {c : Option κ}
    (hc : ∀ k ∈ c, k ∈ f.keys) : (f.push a h).upTo c = f.upTo c := by
  cases c with
  | none => rfl
  | some k => exact takeUpTo_append (hc k rfl)

theorem after_push {f : Feed key} {a : α} (h : key a ∉ f.keys) {c : Option κ}
    (hc : ∀ k ∈ c, k ∈ f.keys) : (f.push a h).after c = f.after c ++ [a] := by
  have hall := (f.push a h).upTo_append_after c
  rw [upTo_push h hc, push_entries, ← f.upTo_append_after c, List.append_assoc] at hall
  exact List.append_cancel_left hall

/-- Moving the cursor over a list takes it off what comes after. -/
theorem after_eq_append {f : Feed key} {c c' : Option κ} {l : List α}
    (h : f.upTo c' = f.upTo c ++ l) : f.after c = l ++ f.after c' := by
  have hall := f.upTo_append_after c'
  rw [h, ← f.upTo_append_after c, List.append_assoc] at hall
  exact (List.append_cancel_left hall).symm

/-! ### Covered cursors -/

/-- The cursor points into the feed and everything at or before it is in `S`. -/
structure Covers (f : Feed key) (S : Set α) (c : Option κ) : Prop where
  known : ∀ k ∈ c, k ∈ f.keys
  done : ∀ a ∈ f.upTo c, a ∈ S

theorem covers_none (f : Feed key) (S : Set α) : f.Covers S none :=
  ⟨by simp, by simp [upTo]⟩

theorem Covers.mono {f : Feed key} {S S' : Set α} {c : Option κ} (h : f.Covers S c)
    (hS : S ⊆ S') : f.Covers S' c :=
  ⟨h.known, fun a ha => hS (h.done a ha)⟩

theorem Covers.push {f : Feed key} {S : Set α} {c : Option κ} (h : f.Covers S c) {a : α}
    (ha : key a ∉ f.keys) : (f.push a ha).Covers S c := by
  refine ⟨fun k hk => ?_, ?_⟩
  · simpa [keys] using Or.inl (by simpa [keys] using h.known k hk)
  · rw [upTo_push ha h.known]
    exact h.done

/-! ### Working through a list in order -/

/-- Each entry of the list finds everything before it in `S` or earlier in the list. -/
def Chained (f : Feed key) : Set α → List α → Prop
  | _, [] => True
  | S, a :: l =>
    a ∈ f.entries ∧ (∀ b ∈ f.upTo (some (key a)), b ∈ S ∨ b = a) ∧ Chained f (insert a S) l

@[simp] theorem chained_nil (f : Feed key) (S : Set α) : f.Chained S [] := trivial

theorem Chained.mono {f : Feed key} {S S' : Set α} {l : List α} (h : f.Chained S l)
    (hS : S ⊆ S') : f.Chained S' l := by
  induction l generalizing S S' with
  | nil => trivial
  | cons a l ih =>
    obtain ⟨ha, hup, hl⟩ := h
    exact ⟨ha, fun b hb => (hup b hb).imp_left (@hS b), ih hl (Set.insert_subset_insert hS)⟩

theorem Chained.push {f : Feed key} {S : Set α} {l : List α} (h : f.Chained S l) {a : α}
    (ha : key a ∉ f.keys) : (f.push a ha).Chained S l := by
  induction l generalizing S with
  | nil => trivial
  | cons b l ih =>
    obtain ⟨hb, hup, hl⟩ := h
    refine ⟨List.mem_append_left _ hb, ?_, ih hl⟩
    rwa [upTo_push ha (by simpa [keys] using ⟨b, hb, rfl⟩)]

theorem Chained.subset {f : Feed key} {S : Set α} {l : List α} (h : f.Chained S l) :
    l ⊆ f.entries := by
  induction l generalizing S with
  | nil => exact List.nil_subset _
  | cons a l ih => exact List.cons_subset.2 ⟨h.1, ih h.2.2⟩

theorem chained_append {f : Feed key} {S : Set α} {l m : List α} :
    f.Chained S (l ++ m) ↔ f.Chained S l ∧ f.Chained (S ∪ {a | a ∈ l}) m := by
  induction l generalizing S with
  | nil => simp
  | cons a l ih =>
    have hset : insert a S ∪ {b | b ∈ l} = S ∪ {b | b ∈ a :: l} := by
      ext b
      simp only [Set.mem_union, Set.mem_insert_iff, Set.mem_ofPred_eq, List.mem_cons]
      tauto
    rw [List.cons_append, Chained, Chained, ih, hset]
    tauto

/-- A contiguous block of the feed is chained over what precedes it. -/
theorem chained_block {f : Feed key} {S : Set α} {p m q : List α}
    (h : f.entries = p ++ m ++ q) (hS : ∀ a ∈ p, a ∈ S) : f.Chained S m := by
  induction m generalizing p S with
  | nil => trivial
  | cons a m ih =>
    have hsplit : f.entries = p ++ a :: (m ++ q) := by simpa using h
    refine ⟨by simp [hsplit], fun b hb => ?_, ?_⟩
    · rw [upTo_of_split hsplit, List.mem_append, List.mem_singleton] at hb
      exact hb.imp_left (hS b)
    · refine ih (p := p ++ [a]) (by simpa using h) fun b hb => ?_
      rw [List.mem_append, List.mem_singleton] at hb
      exact hb.elim (fun hb => Or.inr (hS b hb)) Or.inl

/-- A reordered block has an entry that comes earlier than an entry before it in the feed. -/
theorem exists_skipped_of_perm {f : Feed key} {p m q l : List α}
    (h : f.entries = p ++ m ++ q) (hl : l.Perm m) (hne : l ≠ m) :
    ∃ l₁ x l₂ y, l = l₁ ++ x :: l₂ ∧ y ∈ f.upTo (some (key x)) ∧ y ∈ m ∧ y ∉ l₁ ++ [x] := by
  have hnodup : m.Nodup := by
    refine (List.Nodup.of_map key f.nodup).sublist ?_
    rw [h]
    exact (List.sublist_append_right p m).trans (List.sublist_append_left _ q)
  obtain ⟨l₁, x, y, l₂, r, rfl, rfl, hxy⟩ := List.exists_split_of_ne hl.length_eq hne
  have hxnot : x ∉ l₁ := fun hx =>
    (List.nodup_append.1 (hl.nodup_iff.2 hnodup)).2.2 x hx x List.mem_cons_self rfl
  have hynot : y ∉ l₁ := fun hy =>
    (List.nodup_append.1 hnodup).2.2 y hy y List.mem_cons_self rfl
  have hx : x ∈ r := by
    have hmem : x ∈ l₁ ++ y :: r := hl.mem_iff.1 (by simp)
    simpa [hxnot, hxy] using hmem
  obtain ⟨r₁, r₂, rfl⟩ := List.append_of_mem hx
  have hsplit : f.entries = (p ++ l₁ ++ y :: r₁) ++ x :: (r₂ ++ q) := by simp [h]
  refine ⟨l₁, x, l₂, y, rfl, ?_, by simp, by simp [hynot, Ne.symm hxy]⟩
  rw [upTo_of_split hsplit]
  simp

/-- The first entries after a covered cursor are chained. -/
theorem chained_take_after {f : Feed key} {S : Set α} {c : Option κ} (h : f.Covers S c)
    (n : ℕ) : f.Chained S ((f.after c).take n) := by
  refine chained_block (p := f.upTo c) (q := (f.after c).drop n) ?_ h.done
  rw [List.append_assoc, List.take_append_drop, upTo_append_after]

theorem Chained.head_covers {f : Feed key} {S : Set α} {a : α} {l : List α}
    (h : f.Chained S (a :: l)) (ha : a ∈ S) : f.Covers S (some (key a)) := by
  obtain ⟨hmem, hup, -⟩ := h
  refine ⟨?_, fun b hb => ?_⟩
  · rintro k ⟨⟩
    exact List.mem_map_of_mem hmem
  · exact (hup b hb).elim id fun hba => hba ▸ ha

/-- Every entry of a chained list that has been worked through is a covered cursor. -/
theorem Chained.covers {f : Feed key} {S : Set α} {l : List α} (h : f.Chained S l)
    (hS : ∀ a ∈ l, a ∈ S) : ∀ a ∈ l, f.Covers S (some (key a)) := by
  induction l with
  | nil => simp
  | cons a l ih =>
    have ha := hS a List.mem_cons_self
    have htail : f.Chained S l := h.2.2.mono (Set.insert_subset ha le_rfl)
    intro b hb
    rcases List.mem_cons.1 hb with rfl | hb
    · exact h.head_covers ha
    · exact ih htail (fun c hc => hS c (List.mem_cons_of_mem _ hc)) b hb

end Feed
