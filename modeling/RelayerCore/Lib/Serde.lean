import Mathlib.Tactic

/-!
# Structures as JSON objects

A derived structure writes one entry for each of its fields into an object, and reads an object by
taking the entries it knows: a field that is missing or occurs twice is an error, and entries of
other names are ignored.  A flattened structure writes its entries among those of the structure
around it, and reads what the named fields of the latter have left.

Objects are lists of entries, so that a name can occur twice.
-/

namespace Serde

inductive Json
  | null
  | bool (b : Bool)
  | number (n : ℕ)
  | string (s : String)
  | array (items : List Json)
  | object (entries : List (String × Json))

/-- The entries of an object. -/
abbrev Entries := List (String × Json)

/-- No object in the value has a key twice. -/
inductive Json.KeysOnce : Json → Prop
  | null : KeysOnce .null
  | bool (b : Bool) : KeysOnce (.bool b)
  | number (n : ℕ) : KeysOnce (.number n)
  | string (s : String) : KeysOnce (.string s)
  | array {items : List Json} (h : ∀ j ∈ items, KeysOnce j) : KeysOnce (.array items)
  | object {entries : Entries} (hkeys : (entries.map Prod.fst).Nodup)
      (h : ∀ e ∈ entries, KeysOnce e.2) : KeysOnce (.object entries)

variable {α β : Type}

/-! ### Values -/

/-- A way to write values of type `α` as JSON and to read them back. -/
structure Format (α : Type) where
  serialize : α → Json
  deserialize : Json → Option α

/-- A value that is read back as it was, from JSON without repeated keys. -/
structure Format.RoundTrips (c : Format α) (a : α) : Prop where
  keysOnce : (c.serialize a).KeysOnce
  deserialize : c.deserialize (c.serialize a) = some a

/-- A value written as a string. -/
def text (write : α → String) (read : String → Option α) : Format α where
  serialize a := .string (write a)
  deserialize
    | .string s => read s
    | _ => none

def string : Format String := text id some

def bool : Format Bool where
  serialize b := .bool b
  deserialize
    | .bool b => some b
    | _ => none

/-- A number of 64 bits. -/
def u64 : Format UInt64 where
  serialize n := .number n.toNat
  deserialize
    | .number n => if n < UInt64.size then some (UInt64.ofNat n) else none
    | _ => none

def array (c : Format α) : Format (List α) where
  serialize as := .array (as.map c.serialize)
  deserialize
    | .array items => items.mapM c.deserialize
    | _ => none

theorem roundTrips_text {write : α → String} {read : String → Option α} {a : α}
    (h : read (write a) = some a) : (text write read).RoundTrips a := ⟨.string _, h⟩

theorem roundTrips_string (s : String) : string.RoundTrips s := roundTrips_text rfl

theorem roundTrips_bool (b : Bool) : bool.RoundTrips b := ⟨.bool b, rfl⟩

theorem roundTrips_u64 (n : UInt64) : u64.RoundTrips n := by
  refine ⟨.number _, ?_⟩
  show (if n.toNat < UInt64.size then some (UInt64.ofNat n.toNat) else none) = some n
  rw [if_pos n.toNat_lt_size, UInt64.ofNat_toNat]

theorem roundTrips_array {c : Format α} {as : List α} (h : ∀ a ∈ as, c.RoundTrips a) :
    (array c).RoundTrips as := by
  refine ⟨.array fun j hj => ?_, ?_⟩
  · obtain ⟨a, ha, rfl⟩ := List.mem_map.mp hj
    exact (h a ha).keysOnce
  · show (as.map c.serialize).mapM c.deserialize = some as
    induction as with
    | nil => rfl
    | cons a as ih =>
      obtain ⟨ha, has⟩ := List.forall_mem_cons.mp h
      simp [ha.deserialize, ih has]

/-- A format that does not write `null`, which stands for an absent value. -/
def Format.NeverNull (c : Format α) : Prop := ∀ a, c.serialize a ≠ .null

theorem neverNull_text (write : α → String) (read : String → Option α) :
    (text write read).NeverNull := fun _ h => by cases h

theorem neverNull_bool : bool.NeverNull := fun _ h => by cases h

theorem neverNull_array (c : Format α) : (array c).NeverNull := fun _ h => by cases h

/-! ### Fields -/

/-- The fields of a structure: their names, and how they are written to and read from the entries
of an object. -/
structure Fields (α : Type) where
  names : List String
  entries : α → Entries
  read : Entries → Option α

/-- The only entry of a name, if there is one; two are an error. -/
def entry (name : String) (es : Entries) : Option (Option Json) :=
  match es.filter (·.1 = name) with
  | [] => some none
  | [e] => some (some e.2)
  -- duplicate field
  | _ => none

namespace Fields

/-- A field that is always written. -/
def required (name : String) (c : Format α) : Fields α where
  names := [name]
  entries a := [(name, c.serialize a)]
  read es := do
    let value ← entry name es
    let value ← value
    c.deserialize value

/-- A field that is left out if there is no value. -/
def optional (name : String) (c : Format α) : Fields (Option α) where
  names := [name]
  entries a := (a.map fun a => (name, c.serialize a)).toList
  read es := do
    match ← entry name es with
    -- both a missing entry and an explicit `null` read as `None`
    | none | some .null => return none
    | some value => (c.deserialize value).map some

/-- No fields at all. -/
def unit : Fields Unit where
  names := []
  entries _ := []
  read _ := some ()

/-- The fields of one structure, one after the other. -/
def pair (f : Fields α) (g : Fields β) : Fields (α × β) where
  names := f.names ++ g.names
  entries p := f.entries p.1 ++ g.entries p.2
  read es := do
    let a ← f.read es
    let b ← g.read es
    return (a, b)

/-- What the named fields leave. -/
def others (names : List String) (es : Entries) : Entries := es.filter (·.1 ∉ names)

/-- A flattened structure before the named fields. -/
def flattenFirst (g : Fields β) (f : Fields α) : Fields (β × α) where
  names := g.names ++ f.names
  entries p := g.entries p.1 ++ f.entries p.2
  read es := do
    let a ← f.read es
    let b ← g.read (others f.names es)
    return (b, a)

/-- A flattened structure after the named fields. -/
def flattenLast (f : Fields α) (g : Fields β) : Fields (α × β) where
  names := f.names ++ g.names
  entries p := f.entries p.1 ++ g.entries p.2
  read es := do
    -- the named fields take their keys before the flattened structure sees any
    let a ← f.read es
    let b ← g.read (others f.names es)
    return (a, b)

def via (f : Fields α) (write : β → α) (read : α → β) : Fields β where
  names := f.names
  entries b := f.entries (write b)
  read es := (f.read es).map read

/-- A structure is an object. -/
def object (f : Fields α) : Format α where
  serialize a := .object (f.entries a)
  deserialize
    | .object es => f.read es
    | _ => none

section Names

variable (f : Fields α) (g : Fields β) (name : String) (c : Format α)

@[simp] theorem names_required : (required name c).names = [name] := rfl

@[simp] theorem names_optional : (optional name c).names = [name] := rfl

@[simp] theorem names_unit : unit.names = [] := rfl

@[simp] theorem names_pair : (f.pair g).names = f.names ++ g.names := rfl

@[simp] theorem names_flattenFirst : (g.flattenFirst f).names = g.names ++ f.names := rfl

@[simp] theorem names_via (write : β → α) (read : α → β) : (f.via write read).names = f.names := rfl

end Names

/-- Entries with the given names, none of them twice. -/
structure Written (names : List String) (es : Entries) : Prop where
  keys : ∀ e ∈ es, e.1 ∈ names
  once : (es.map Prod.fst).Nodup
  values : ∀ e ∈ es, e.2.KeysOnce

/-- The fields of a value are written once each, and are read back from among any others. -/
structure RoundTrips (f : Fields α) (a : α) : Prop where
  written : Written f.names (f.entries a)
  read : ∀ es : Entries, es.filter (·.1 ∈ f.names) = f.entries a → f.read es = some a

/-! ### Taking entries -/

section Taking

variable {es l r : Entries} {ns ms : List String}

theorem written_nil : Written ns [] :=
  ⟨List.forall_mem_nil _, List.nodup_nil, List.forall_mem_nil _⟩

theorem written_singleton {name : String} {value : Json} (h : value.KeysOnce) :
    Written [name] [(name, value)] := by
  refine ⟨fun e he => ?_, List.nodup_singleton name, fun e he => ?_⟩
  · rw [List.mem_singleton.mp he]
    exact List.mem_singleton_self name
  · rw [List.mem_singleton.mp he]
    exact h

theorem Written.append (hl : Written ns l) (hr : Written ms r)
    (hne : ∀ e ∈ l, ∀ e' ∈ r, e.1 ≠ e'.1) : Written (ns ++ ms) (l ++ r) := by
  refine ⟨fun e he => ?_, ?_, fun e he => ?_⟩
  · rcases List.mem_append.mp he with he | he
    · exact List.mem_append_left _ (hl.keys e he)
    · exact List.mem_append_right _ (hr.keys e he)
  · rw [List.map_append]
    refine List.Nodup.append hl.once hr.once fun name hname hname' => ?_
    obtain ⟨e, he, rfl⟩ := List.mem_map.mp hname
    obtain ⟨e', he', heq⟩ := List.mem_map.mp hname'
    exact hne e he e' he' heq.symm
  · rcases List.mem_append.mp he with he | he
    · exact hl.values e he
    · exact hr.values e he

/-- What is picked from all entries is picked from those already taken. -/
theorem filter_of_filter {p q : String × Json → Bool} (h : es.filter p = l)
    (hq : ∀ e, q e = true → p e = true) : es.filter q = l.filter q := by
  rw [← h, List.filter_filter]
  refine List.filter_congr fun e _ => ?_
  cases hqe : q e with
  | false => rfl
  | true => rw [hq e hqe]; rfl

theorem filter_append_left {p : String × Json → Bool} (hl : ∀ e ∈ l, p e = true)
    (hr : ∀ e ∈ r, p e = false) : (l ++ r).filter p = l := by
  have hnil : r.filter p = [] := List.filter_eq_nil_iff.mpr fun e he => by simp [hr e he]
  rw [List.filter_append, List.filter_eq_self.mpr hl, hnil, List.append_nil]

theorem filter_append_right {p : String × Json → Bool} (hl : ∀ e ∈ l, p e = false)
    (hr : ∀ e ∈ r, p e = true) : (l ++ r).filter p = r := by
  have hnil : l.filter p = [] := List.filter_eq_nil_iff.mpr fun e he => by simp [hl e he]
  rw [List.filter_append, List.filter_eq_self.mpr hr, hnil, List.nil_append]

variable (hes : es.filter (·.1 ∈ ns ++ ms) = l ++ r)

include hes

theorem take_left (hl : ∀ e ∈ l, e.1 ∈ ns) (hr : ∀ e ∈ r, e.1 ∉ ns) :
    es.filter (·.1 ∈ ns) = l := by
  rw [filter_of_filter hes fun e he => by simpa using Or.inl (by simpa using he)]
  exact filter_append_left (fun e he => by simpa using hl e he) fun e he => by simpa using hr e he

theorem take_right (hl : ∀ e ∈ l, e.1 ∉ ms) (hr : ∀ e ∈ r, e.1 ∈ ms) :
    es.filter (·.1 ∈ ms) = r := by
  rw [filter_of_filter hes fun e he => by simpa using Or.inr (by simpa using he)]
  exact filter_append_right (fun e he => by simpa using hl e he) fun e he => by simpa using hr e he

/-- The right part, after the names of the left part are gone. -/
theorem take_right_of_others (hl : ∀ e ∈ l, e.1 ∈ ns) (hr : ∀ e ∈ r, e.1 ∈ ms ∧ e.1 ∉ ns) :
    (others ns es).filter (·.1 ∈ ms) = r := by
  unfold others
  rw [List.filter_filter, filter_of_filter hes fun e he => by
    simp only [Bool.and_eq_true, decide_eq_true_eq, List.mem_append] at he ⊢
    exact Or.inr he.1]
  exact filter_append_right (fun e he => by simp [hl e he]) fun e he => by simp [hr e he]

theorem take_left_of_others (hl : ∀ e ∈ l, e.1 ∈ ns ∧ e.1 ∉ ms) (hr : ∀ e ∈ r, e.1 ∈ ms) :
    (others ms es).filter (·.1 ∈ ns) = l := by
  unfold others
  rw [List.filter_filter, filter_of_filter hes fun e he => by
    simp only [Bool.and_eq_true, decide_eq_true_eq, List.mem_append] at he ⊢
    exact Or.inl he.1]
  exact filter_append_left (fun e he => by simp [hl e he]) fun e he => by simp [hr e he]

end Taking

theorem entry_of_filter {name : String} {value : Json} {es : Entries}
    (h : es.filter (·.1 ∈ [name]) = [(name, value)]) : entry name es = some (some value) := by
  simp only [List.mem_singleton] at h
  unfold entry
  rw [h]

theorem entry_of_filter_nil {name : String} {es : Entries}
    (h : es.filter (·.1 ∈ [name]) = []) : entry name es = some none := by
  simp only [List.mem_singleton] at h
  unfold entry
  rw [h]

/-! ### The laws -/

section Laws

variable {f : Fields α} {g : Fields β} {a : α} {b : β} {name : String}

/-- The entries of a value can be read by themselves. -/
theorem RoundTrips.read_entries (h : f.RoundTrips a) : f.read (f.entries a) = some a :=
  h.read _ (List.filter_eq_self.mpr fun e he => by simpa using h.written.keys e he)

theorem roundTrips_object (h : f.RoundTrips a) : f.object.RoundTrips a :=
  ⟨.object h.written.once h.written.values, h.read_entries⟩

theorem roundTrips_required {c : Format α} (h : c.RoundTrips a) :
    (required name c).RoundTrips a := by
  refine ⟨written_singleton h.keysOnce, fun es hes => ?_⟩
  show (entry name es).bind _ = _
  rw [entry_of_filter hes]
  exact h.deserialize

theorem neverNull_object (f : Fields α) : f.object.NeverNull := fun _ h => by cases h

theorem roundTrips_optional {c : Format α} {o : Option α} (hnull : c.NeverNull)
    (h : ∀ a ∈ o, c.RoundTrips a) : (optional name c).RoundTrips o := by
  cases o with
  | none =>
    refine ⟨written_nil, fun es hes => ?_⟩
    show (entry name es).bind _ = _
    rw [entry_of_filter_nil hes]
    rfl
  | some a =>
    have ha := h a rfl
    refine ⟨written_singleton ha.keysOnce, fun es hes => ?_⟩
    show (entry name es).bind _ = _
    rw [entry_of_filter hes, Option.bind_some]
    have hread := ha.deserialize
    cases hvalue : c.serialize a with
    | null => exact absurd hvalue (hnull a)
    | bool b | number n | string s | array items | object entries =>
      rw [hvalue] at hread
      simp [hread]

theorem roundTrips_unit : unit.RoundTrips () := ⟨written_nil, fun _ _ => rfl⟩

theorem RoundTrips.via {write : β → α} {read : α → β} (h : f.RoundTrips (write b))
    (hread : read (write b) = b) : (f.via write read).RoundTrips b := by
  refine ⟨h.written, fun es hes => ?_⟩
  show (f.read es).map read = some b
  rw [h.read es hes, Option.map_some, hread]

/-- Two structures without a common name. -/
def Apart (f : Fields α) (g : Fields β) : Prop := ∀ name ∈ f.names, name ∉ g.names

@[simp] theorem apart_iff : Apart f g ↔ ∀ name ∈ f.names, name ∉ g.names := Iff.rfl

theorem RoundTrips.pair (hf : f.RoundTrips a) (hg : g.RoundTrips b) (hfg : Apart f g) :
    (f.pair g).RoundTrips (a, b) := by
  have hleft : ∀ e ∈ f.entries a, e.1 ∉ g.names := fun e he => hfg e.1 (hf.written.keys e he)
  have hright : ∀ e ∈ g.entries b, e.1 ∉ f.names := fun e he hmem =>
    hfg e.1 hmem (hg.written.keys e he)
  refine ⟨hf.written.append hg.written fun e he e' he' heq => ?_, fun es hes => ?_⟩
  · exact hright e' he' (heq ▸ hf.written.keys e he)
  · have hfes := take_left hes hf.written.keys hright
    have hges := take_right hes hleft hg.written.keys
    show (f.read es).bind _ = _
    rw [hf.read es hfes, Option.bind_some, hg.read es hges]
    rfl

/-- A flattened value whose entries avoid the named fields. -/
theorem RoundTrips.flattenLast (hf : f.RoundTrips a) (hg : g.RoundTrips b)
    (hout : ∀ e ∈ g.entries b, e.1 ∉ f.names) : (f.flattenLast g).RoundTrips (a, b) := by
  refine ⟨hf.written.append hg.written fun e he e' he' heq => ?_, fun es hes => ?_⟩
  · exact hout e' he' (heq ▸ hf.written.keys e he)
  · have hfes := take_left hes hf.written.keys hout
    have hges := take_right_of_others hes hf.written.keys fun e he =>
      ⟨hg.written.keys e he, hout e he⟩
    show (f.read es).bind _ = _
    rw [hf.read es hfes, Option.bind_some, hg.read _ hges]
    rfl

theorem RoundTrips.flattenFirst (hg : g.RoundTrips b) (hf : f.RoundTrips a)
    (hout : ∀ e ∈ g.entries b, e.1 ∉ f.names) : (g.flattenFirst f).RoundTrips (b, a) := by
  refine ⟨hg.written.append hf.written fun e he e' he' heq => ?_, fun es hes => ?_⟩
  · exact hout e he (heq ▸ hf.written.keys e' he')
  · have hfes := take_right hes hout hf.written.keys
    have hges := take_left_of_others hes (fun e he => ⟨hg.written.keys e he, hout e he⟩)
      hf.written.keys
    show (f.read es).bind _ = _
    rw [hf.read es hfes, Option.bind_some, hg.read _ hges]
    rfl

/-- The entries of a structure that shares no name with another. -/
theorem RoundTrips.notMem_of_apart (hg : g.RoundTrips b) (hgf : Apart g f) :
    ∀ e ∈ g.entries b, e.1 ∉ f.names := fun e he => hgf e.1 (hg.written.keys e he)

/-! ### What is read -/

theorem entry_others {names : List String} (h : name ∈ names) (es : Entries) :
    entry name (others names es) = some none := by
  refine entry_of_filter_nil ?_
  unfold others
  rw [List.filter_filter]
  refine List.filter_eq_nil_iff.mpr fun e _ => ?_
  rw [Bool.and_eq_true, decide_eq_true_eq, decide_eq_true_eq, List.mem_singleton]
  rintro ⟨rfl, hno⟩
  exact hno h

variable {es : Entries}

theorem read_via {write : β → α} {read : α → β} (h : (f.via write read).read es = some b) :
    ∃ a, f.read es = some a ∧ read a = b := Option.map_eq_some_iff.mp h

theorem read_pair {p : α × β} (h : (f.pair g).read es = some p) :
    f.read es = some p.1 ∧ g.read es = some p.2 := by
  obtain ⟨a, ha, h⟩ := Option.bind_eq_some_iff.mp h
  obtain ⟨b, hb, h⟩ := Option.bind_eq_some_iff.mp h
  cases h
  exact ⟨ha, hb⟩

theorem read_flattenLast {p : α × β} (h : (f.flattenLast g).read es = some p) :
    f.read es = some p.1 ∧ g.read (others f.names es) = some p.2 := by
  obtain ⟨a, ha, h⟩ := Option.bind_eq_some_iff.mp h
  obtain ⟨b, hb, h⟩ := Option.bind_eq_some_iff.mp h
  cases h
  exact ⟨ha, hb⟩

theorem read_flattenFirst {p : β × α} (h : (g.flattenFirst f).read es = some p) :
    g.read (others f.names es) = some p.1 ∧ f.read es = some p.2 := by
  obtain ⟨a, ha, h⟩ := Option.bind_eq_some_iff.mp h
  obtain ⟨b, hb, h⟩ := Option.bind_eq_some_iff.mp h
  cases h
  exact ⟨hb, ha⟩

/-- A value that is present was written as one. -/
theorem read_optional {c : Format α} (h : (optional name c).read es = some (some a)) :
    ∃ value, entry name es = some (some value) ∧ c.deserialize value = some a := by
  obtain ⟨o, ho, h⟩ := Option.bind_eq_some_iff.mp h
  cases o with
  | none => cases h
  | some value =>
    cases value with
    | null => cases h
    | bool b | number n | string s | array items | object entries =>
      obtain ⟨a', ha', h⟩ := Option.map_eq_some_iff.mp h
      cases h
      exact ⟨_, ho, ha'⟩

/-- What the other names have taken is absent. -/
theorem read_optional_others {c : Format α} {names : List String} {o : Option α}
    (hname : name ∈ names) (h : (optional name c).read (others names es) = some o) : o = none := by
  cases o with
  | none => rfl
  | some a =>
    -- a value would need an entry, and the outer names have taken it
    obtain ⟨value, hvalue, -⟩ := read_optional h
    rw [entry_others hname] at hvalue
    cases hvalue

end Laws

end Fields

/-! ### Variants -/

/-- An object that has the name of a variant in one of its entries. -/
def tagged (tag name : String) (es : Entries) : Json := .object ((tag, .string name) :: es)

/-- The name of the variant, and the other entries. -/
def untag (tag : String) : Json → Option (String × Entries)
  | .object es =>
    match entry tag es with
    | some (some (.string name)) => some (name, es.filter (·.1 ≠ tag))
    | _ => none
  | _ => none

/-- The name of a variant and its content in two entries. -/
def adjacent (tag content name : String) (value : Json) : Entries :=
  [(tag, .string name), (content, value)]

def unadjacent (tag content : String) (es : Entries) : Option (String × Json) :=
  match entry tag es, entry content es with
  | some (some (.string name)), some (some value) => some (name, value)
  | _, _ => none

section Variants

variable {names : List String} {tag content name : String} {value : Json} {es : Entries}

theorem untag_tagged (h : Fields.Written names es) (htag : tag ∉ names) :
    untag tag (tagged tag name es) = some (name, es) := by
  have hne : ∀ e ∈ es, e.1 ≠ tag := fun e he heq => htag (heq ▸ h.keys e he)
  have hentry : entry tag ((tag, Json.string name) :: es) = some (some (.string name)) := by
    refine Fields.entry_of_filter ?_
    have hnil : es.filter (·.1 ∈ [tag]) = [] :=
      List.filter_eq_nil_iff.mpr fun e he => by simpa using hne e he
    rw [List.filter_cons_of_pos (by simp), hnil]
  have hrest : ((tag, Json.string name) :: es).filter (·.1 ≠ tag) = es := by
    rw [List.filter_cons_of_neg (by simp)]
    exact List.filter_eq_self.mpr fun e he => by simpa using hne e he
  simp only [untag, tagged, hentry, hrest]

theorem keysOnce_tagged (h : Fields.Written names es) (htag : tag ∉ names) :
    (tagged tag name es).KeysOnce := by
  refine .object ?_ fun e he => ?_
  · rw [List.map_cons, List.nodup_cons]
    refine ⟨fun hmem => ?_, h.once⟩
    obtain ⟨e, he, rfl⟩ := List.mem_map.mp hmem
    exact htag (h.keys e he)
  · rcases List.mem_cons.mp he with rfl | he
    · exact .string name
    · exact h.values e he

/-- A variant round trips if its content does. -/
theorem roundTrips_tagged {c : Format α} {f : Fields β} {make : β → α} {b : β}
    {read : String × Entries → Option α} (h : f.RoundTrips b) (htag : tag ∉ f.names)
    (hwrite : c.serialize (make b) = tagged tag name (f.entries b))
    (hread : ∀ value, c.deserialize value = (untag tag value).bind read)
    (hvariant : ∀ es, read (name, es) = (f.read es).map make) : c.RoundTrips (make b) := by
  refine ⟨?_, ?_⟩
  · rw [hwrite]
    exact keysOnce_tagged h.written htag
  · rw [hread, hwrite, untag_tagged h.written htag, Option.bind_some, hvariant, h.read_entries,
      Option.map_some]

theorem written_adjacent (hne : tag ≠ content) (h : value.KeysOnce) :
    Fields.Written [tag, content] (adjacent tag content name value) := by
  have hleft : Fields.Written [tag] [(tag, .string name)] :=
    Fields.written_singleton (.string name)
  refine hleft.append (Fields.written_singleton h) fun e he e' he' => ?_
  rw [List.mem_singleton.mp he, List.mem_singleton.mp he']
  exact hne

theorem unadjacent_of_filter (hne : tag ≠ content)
    (h : es.filter (·.1 ∈ [tag, content]) = adjacent tag content name value) :
    unadjacent tag content es = some (name, value) := by
  have hsplit : es.filter (·.1 ∈ [tag] ++ [content]) =
      [(tag, Json.string name)] ++ [(content, value)] := h
  have htag : entry tag es = some (some (.string name)) :=
    Fields.entry_of_filter (Fields.take_left hsplit (by simp) (by simp [hne.symm]))
  have hcontent : entry content es = some (some value) :=
    Fields.entry_of_filter (Fields.take_right hsplit (by simp [hne]) (by simp))
  unfold unadjacent
  rw [htag, hcontent]

theorem roundTrips_adjacent {f : Fields α} {c : Format β} {make : β → α} {b : β}
    {read : String × Json → Option α} (h : c.RoundTrips b) (hne : tag ≠ content)
    (hnames : f.names = [tag, content])
    (hwrite : f.entries (make b) = adjacent tag content name (c.serialize b))
    (hread : ∀ es, f.read es = (unadjacent tag content es).bind read)
    (hvariant : ∀ value, read (name, value) = (c.deserialize value).map make) :
    f.RoundTrips (make b) := by
  refine ⟨?_, fun es hes => ?_⟩
  · rw [hwrite, hnames]
    exact written_adjacent hne h.keysOnce
  · rw [hwrite, hnames] at hes
    rw [hread, unadjacent_of_filter hne hes, Option.bind_some, hvariant, h.deserialize,
      Option.map_some]

end Variants

end Serde
