import RelayerCore.Lib.Borsh

/-!
# What codecs accept

A strict codec accepts only what it writes.  Other codecs are strict but for some parts of their
input, which can be spelled in several ways: a spelling lists these parts, and the input is what is
written exactly when all of them are good.
-/

namespace Codec

variable {α β σ : Type}

/-- What is read fits, and is what is written. -/
structure Strict (c : Codec α) : Prop where
  fits : ∀ {bytes a rest}, c.deserialize bytes = some (a, rest) → c.Fits a
  eq : ∀ {bytes a rest}, c.deserialize bytes = some (a, rest) → bytes = c.serialize a ++ rest

/-- The parts of the input that can be spelled in several ways. -/
structure Spelling (Good : σ → Prop) (c : Codec α) where
  parts : List UInt8 → List σ
  fits : ∀ {bytes a rest}, c.deserialize bytes = some (a, rest) → c.Fits a
  eq_iff : ∀ {bytes a rest}, c.deserialize bytes = some (a, rest) →
    (bytes = c.serialize a ++ rest ↔ ∀ s ∈ parts bytes, Good s)

/-! ### Strict codecs -/

section Strict

variable {c : Codec α} {d : Codec β}

theorem split_eq_some {n : ℕ} {bytes front rest : List UInt8}
    (h : split n bytes = some (front, rest)) : front.length = n ∧ bytes = front ++ rest := by
  unfold split at h
  split_ifs at h with hn
  cases h
  exact ⟨List.length_take_of_le hn, (List.take_append_drop n bytes).symm⟩

theorem ofBytes_lt (bytes : List UInt8) : ofBytes bytes < 256 ^ bytes.length := by
  induction bytes with
  | nil => exact Nat.one_pos
  | cons b bytes ih =>
    have hb := b.toNat_lt
    rw [ofBytes, List.length_cons, Nat.pow_succ]
    omega

theorem toBytes_ofBytes (bytes : List UInt8) : toBytes bytes.length (ofBytes bytes) = bytes := by
  induction bytes with
  | nil => rfl
  | cons b bytes ih =>
    have hb := b.toNat_lt
    have hdiv : (b.toNat + 256 * ofBytes bytes) / 256 = ofBytes bytes := by omega
    have hbyte : UInt8.ofNat (b.toNat + 256 * ofBytes bytes) = b := by
      rw [← UInt8.toNat_inj, UInt8.toNat_ofNat']
      omega
    rw [List.length_cons, ofBytes, toBytes, hdiv, ih, hbyte]

theorem Strict.of_read (h : ∀ {bytes a rest}, c.deserialize bytes = some (a, rest) →
    c.Fits a ∧ bytes = c.serialize a ++ rest) : c.Strict :=
  ⟨fun hread => (h hread).1, fun hread => (h hread).2⟩

theorem strict_nat (n : ℕ) : (nat n).Strict := by
  refine .of_read fun {bytes k rest} h => ?_
  obtain ⟨⟨front, rest'⟩, hsplit, hk⟩ := Option.map_eq_some_iff.mp h
  cases hk
  obtain ⟨rfl, rfl⟩ := split_eq_some hsplit
  exact ⟨ofBytes_lt front, congrArg (· ++ rest') (toBytes_ofBytes front).symm⟩

theorem pair_eq_some {bytes rest : List UInt8} {p : α × β}
    (h : (c.pair d).deserialize bytes = some (p, rest)) :
    ∃ mid, c.deserialize bytes = some (p.1, mid) ∧ d.deserialize mid = some (p.2, rest) := by
  obtain ⟨⟨a, mid⟩, ha, h⟩ := Option.bind_eq_some_iff.mp h
  obtain ⟨⟨b, rest'⟩, hb, h⟩ := Option.bind_eq_some_iff.mp h
  cases h
  exact ⟨mid, ha, hb⟩

theorem Strict.pair (hc : c.Strict) (hd : d.Strict) : (c.pair d).Strict := by
  refine .of_read fun {bytes p rest} h => ?_
  obtain ⟨mid, ha, hb⟩ := pair_eq_some h
  refine ⟨⟨hc.fits ha, hd.fits hb⟩, ?_⟩
  rw [hc.eq ha, hd.eq hb, ← List.append_assoc]
  rfl

theorem check_eq_some {write : β → α} {read : α → Option β} {P : β → Prop}
    {h : ∀ b, P b → read (write b) = some b} {bytes rest : List UInt8} {b : β}
    (hread : (c.check write read P h).deserialize bytes = some (b, rest)) :
    ∃ a, c.deserialize bytes = some (a, rest) ∧ read a = some b := by
  obtain ⟨⟨a, mid⟩, ha, hread⟩ := Option.bind_eq_some_iff.mp hread
  obtain ⟨b', hb, hread⟩ := Option.bind_eq_some_iff.mp hread
  cases hread
  exact ⟨a, ha, hb⟩

/-- The check only accepts what is written. -/
theorem Strict.check (hc : c.Strict) {write : β → α} {read : α → Option β} {P : β → Prop}
    {h : ∀ b, P b → read (write b) = some b}
    (hread : ∀ a b, c.Fits a → read a = some b → P b ∧ write b = a) :
    (c.check write read P h).Strict := by
  refine .of_read fun {bytes b rest} h => ?_
  obtain ⟨a, ha, hb⟩ := check_eq_some h
  obtain ⟨hP, rfl⟩ := hread a b (hc.fits ha) hb
  exact ⟨⟨hP, hc.fits ha⟩, hc.eq ha⟩

theorem via_eq_some {write : β → α} {read : α → β} {h : ∀ b, read (write b) = b}
    {bytes rest : List UInt8} {b : β}
    (hread : (c.via write read h).deserialize bytes = some (b, rest)) :
    ∃ a, c.deserialize bytes = some (a, rest) ∧ read a = b := by
  obtain ⟨⟨a, mid⟩, ha, hread⟩ := Option.map_eq_some_iff.mp hread
  cases hread
  exact ⟨a, ha, rfl⟩

theorem Strict.via (hc : c.Strict) {write : β → α} {read : α → β} {h : ∀ b, read (write b) = b}
    (hwrite : ∀ a, c.Fits a → write (read a) = a) : (c.via write read h).Strict := by
  refine .of_read fun {bytes b rest} h => ?_
  obtain ⟨a, ha, rfl⟩ := via_eq_some h
  show c.Fits (write (read a)) ∧ _ = c.serialize (write (read a)) ++ rest
  rw [hwrite a (hc.fits ha)]
  exact ⟨hc.fits ha, hc.eq ha⟩

theorem Strict.option (hc : c.Strict) : c.option.Strict := by
  refine .of_read fun {bytes o rest} h => ?_
  dsimp only [Codec.option] at h ⊢
  split at h
  · cases h
    exact ⟨fun a ha => (by cases ha), rfl⟩
  · obtain ⟨⟨a, rest'⟩, ha, ho⟩ := Option.map_eq_some_iff.mp h
    cases ho
    refine ⟨fun a' ha' => ?_, congrArg (1 :: ·) (hc.eq ha)⟩
    cases ha'
    exact hc.fits ha
  · cases h

theorem Strict.many (hc : c.Strict) {n : ℕ} {bytes rest : List UInt8} {as : List α}
    (h : many c n bytes = some (as, rest)) :
    as.length = n ∧ (∀ a ∈ as, c.Fits a) ∧ bytes = as.flatMap c.serialize ++ rest := by
  induction n generalizing bytes as with
  | zero =>
    cases h
    exact ⟨rfl, List.forall_mem_nil _, rfl⟩
  | succ n ih =>
    obtain ⟨⟨a, mid⟩, ha, h⟩ := Option.bind_eq_some_iff.mp h
    obtain ⟨⟨as', rest'⟩, has, h⟩ := Option.bind_eq_some_iff.mp h
    cases h
    obtain ⟨hlength, hfits, hmid⟩ := ih has
    refine ⟨congrArg Nat.succ hlength, List.forall_mem_cons.mpr ⟨hc.fits ha, hfits⟩, ?_⟩
    rw [hc.eq ha, hmid, List.flatMap_cons, List.append_assoc]

theorem Strict.list (hc : c.Strict) : c.list.Strict := by
  refine .of_read fun {bytes as rest} h => ?_
  obtain ⟨⟨n, mid⟩, hn, h⟩ := Option.bind_eq_some_iff.mp h
  obtain ⟨rfl, hfits, hmid⟩ := hc.many h
  refine ⟨⟨(strict_nat 4).fits hn, hfits⟩, ?_⟩
  show _ = ((nat 4).serialize as.length ++ as.flatMap c.serialize) ++ rest
  rw [(strict_nat 4).eq hn, List.append_assoc, ← hmid]

/-- Values that fit are written differently. -/
theorem serialize_inj {a b : α} (ha : c.Fits a) (hb : c.Fits b)
    (h : c.serialize a = c.serialize b) : a = b := by
  have hread := c.deserialize_serialize a ha []
  rw [h, c.deserialize_serialize b hb] at hread
  cases hread
  rfl

end Strict

/-! ### Spellings -/

namespace Spelling

variable {Good : σ → Prop} {c : Codec α} {d : Codec β}

def ofRead (parts : List UInt8 → List σ)
    (h : ∀ {bytes a rest}, c.deserialize bytes = some (a, rest) →
      c.Fits a ∧ (bytes = c.serialize a ++ rest ↔ ∀ s ∈ parts bytes, Good s)) : Spelling Good c :=
  ⟨parts, fun hread => (h hread).1, fun hread => (h hread).2⟩

/-- In a strict codec nothing can be spelled in several ways. -/
def ofStrict (h : c.Strict) : Spelling Good c where
  parts _ := []
  fits := h.fits
  eq_iff hread := iff_of_true (h.eq hread) (List.forall_mem_nil _)

/-- The parts of one value, then those of the other. -/
def pair (S : Spelling Good c) (T : Spelling Good d) : Spelling Good (c.pair d) where
  parts bytes := S.parts bytes ++
    match c.deserialize bytes with
    | some (_, mid) => T.parts mid
    | none => []
  fits h := by
    obtain ⟨mid, ha, hb⟩ := pair_eq_some h
    exact ⟨S.fits ha, T.fits hb⟩
  eq_iff {bytes p rest} h := by
    obtain ⟨mid, ha, hb⟩ := pair_eq_some h
    have hassoc : (c.pair d).serialize p ++ rest = c.serialize p.1 ++ (d.serialize p.2 ++ rest) :=
      List.append_assoc _ _ _
    rw [ha, List.forall_mem_append, ← S.eq_iff ha, ← T.eq_iff hb, hassoc]
    constructor
    · intro hbytes
      -- the second value begins where the first one ends
      have hmid := c.deserialize_serialize p.1 (S.fits ha) (d.serialize p.2 ++ rest)
      rw [← hbytes, ha] at hmid
      cases hmid
      exact ⟨hbytes, rfl⟩
    · rintro ⟨hbytes, hmid⟩
      rw [← hmid]
      exact hbytes

def via (S : Spelling Good c) {write : β → α} {read : α → β} {h : ∀ b, read (write b) = b}
    (hwrite : ∀ a, write (read a) = a) : Spelling Good (c.via write read h) :=
  .ofRead S.parts fun {bytes b rest} hread => by
    obtain ⟨a, ha, rfl⟩ := via_eq_some hread
    show c.Fits (write (read a)) ∧ (_ = c.serialize (write (read a)) ++ rest ↔ _)
    rw [hwrite a]
    exact ⟨S.fits ha, S.eq_iff ha⟩

/-- A value that is converted after a check; its spelling is good when it is the one written. -/
def check {c : Codec σ} (hc : c.Strict) {write : β → σ} {read : σ → Option β} {P : β → Prop}
    {h : ∀ b, P b → read (write b) = some b} (hfits : ∀ b, (c.check write read P h).Fits b)
    (hgood : ∀ s b, read s = some b → (Good s ↔ write b = s)) :
    Spelling Good (c.check write read P h) where
  parts bytes := ((c.deserialize bytes).map Prod.fst).toList
  fits _ := hfits _
  eq_iff {bytes b rest} hread := by
    obtain ⟨s, hs, hb⟩ := check_eq_some hread
    have hparts : (∀ s' ∈ ((c.deserialize bytes).map Prod.fst).toList, Good s') ↔ Good s := by
      simp [hs]
    rw [hparts, hgood s b hb, hc.eq hs]
    show c.serialize s ++ rest = c.serialize (write b) ++ rest ↔ _
    rw [List.append_cancel_right_eq]
    exact ⟨fun heq => (serialize_inj (hc.fits hs) (hfits b).2 heq).symm, fun heq => by rw [heq]⟩

/-- A variant behind its number. -/
theorem eq_iff_tag (S : Spelling Good c) {f : α → β} {bytes rest : List UInt8} {b : β}
    (h : (c.deserialize bytes).map (Prod.map f id) = some (b, rest)) (tag : UInt8) :
    ∃ a, b = f a ∧ c.Fits a ∧
      (tag :: bytes = tag :: c.serialize a ++ rest ↔ ∀ s ∈ S.parts bytes, Good s) := by
  obtain ⟨⟨a, rest'⟩, ha, hb⟩ := Option.map_eq_some_iff.mp h
  cases hb
  exact ⟨a, rfl, S.fits ha, (List.cons_inj_right tag).trans (S.eq_iff ha)⟩

/-- The whole input is what is written exactly when nothing is left over and all is spelled well. -/
theorem eq_serialize_iff (S : Spelling Good c) {bytes rest : List UInt8} {a : α}
    (h : c.deserialize bytes = some (a, rest)) :
    bytes = c.serialize a ↔ rest = [] ∧ ∀ s ∈ S.parts bytes, Good s := by
  rw [← S.eq_iff h]
  constructor
  · intro hbytes
    have hback := c.deserialize_serialize a (S.fits h) []
    rw [List.append_nil, ← hbytes, h] at hback
    cases hback
    exact ⟨rfl, by rw [List.append_nil]; exact hbytes⟩
  · rintro ⟨rfl, hbytes⟩
    rwa [List.append_nil] at hbytes

end Spelling

end Codec

/-! ### The borsh format -/

namespace Borsh

open Codec

theorem strict_unit : unit.Strict := by
  refine ⟨fun _ => trivial, fun h => ?_⟩
  cases h
  rfl

theorem strict_u8 : u8.Strict := by
  refine ⟨fun _ => trivial, fun {bytes b rest} h => ?_⟩
  cases bytes with
  | nil => cases h
  | cons b' bytes =>
    cases h
    rfl

theorem strict_bool : bool.Strict := by
  refine strict_u8.check fun b v _ h => ⟨trivial, ?_⟩
  split at h
  · cases h
    rfl
  · cases h
    rfl
  · cases h

theorem strict_u64 : u64.Strict :=
  (strict_nat 8).via fun n hn => by
    have hn : n < 256 ^ 8 := hn
    rw [UInt64.toNat_ofNat']
    omega

theorem strict_i64 : i64.Strict := by
  refine (strict_nat 8).check fun n k hn h => ?_
  have hn : n < 256 ^ 8 := hn
  rw [Option.some_inj] at h
  subst h
  split_ifs <;> constructor <;> omega

theorem strict_bits128 : bits128.Strict := by
  refine ⟨fun _ => trivial, fun {bytes b rest} h => ?_⟩
  obtain ⟨⟨front, rest'⟩, hsplit, hb⟩ := Option.map_eq_some_iff.mp h
  cases hb
  obtain ⟨hlength, rfl⟩ := split_eq_some hsplit
  have hreverse : front.reverse.length = 16 := (List.length_reverse).trans hlength
  have hlt := ofBytes_lt front.reverse
  rw [hreverse] at hlt
  have hmod : ofBytes front.reverse % 2 ^ 128 = ofBytes front.reverse := Nat.mod_eq_of_lt hlt
  show _ = (toBytes 16 (BitVec.ofNat 128 (ofBytes front.reverse)).toNat).reverse ++ rest'
  rw [BitVec.toNat_ofNat, hmod, ← hreverse, toBytes_ofBytes, List.reverse_reverse]

theorem strict_bytes : bytes.Strict := strict_u8.list

/-- Bytes that are read as a string are its UTF-8 encoding. -/
theorem strict_string : string.Strict := by
  refine strict_bytes.check fun l s _ h => ⟨trivial, ?_⟩
  unfold String.fromUTF8? at h
  split_ifs at h with hvalid
  cases h
  rfl

/-- `from_slice`: nothing may be left over. -/
def fromSlice {α : Type} (c : Codec α) (bytes : List UInt8) : Option α :=
  match c.deserialize bytes with
  | some (a, []) => some a
  | _ => none

theorem isSome_fromSlice {α : Type} {c : Codec α} {bytes rest : List UInt8} {a : α}
    (h : c.deserialize bytes = some (a, rest)) : (fromSlice c bytes).isSome = true ↔ rest = [] := by
  unfold fromSlice
  rw [h]
  cases rest <;> simp

section Map

variable {κ β : Type} [LinearOrder κ]

theorem nodup_entries (m : Finmap fun _ : κ => β) : ((entries m).map Prod.fst).Nodup := by
  have hsub : ((entries m).map Prod.fst).Sublist m.keys.sort := by
    unfold entries
    induction m.keys.sort with
    | nil => exact List.Sublist.refl _
    | cons k ks ih =>
      rw [List.filterMap_cons]
      cases m.lookup k with
      | none => exact ih.cons k
      | some v => exact ih.cons_cons k
  exact hsub.nodup (Finset.sort_nodup _ _)

theorem lookup_foldl_insert_eq_some {l : List (κ × β)} (hl : (l.map Prod.fst).Nodup)
    (acc : Finmap fun _ : κ => β) (e : κ × β) :
    (l.foldl (fun m e => m.insert e.1 e.2) acc).lookup e.1 = some e.2 ↔
      e ∈ l ∨ e.1 ∉ l.map Prod.fst ∧ acc.lookup e.1 = some e.2 := by
  induction l generalizing acc with
  | nil => simp
  | cons e' l ih =>
    rw [List.map_cons, List.nodup_cons] at hl
    rw [List.foldl_cons, ih hl.2, List.map_cons, List.mem_cons, List.mem_cons]
    by_cases hkey : e.1 = e'.1
    · have hmem : e ∉ l := fun he => hl.1 (hkey ▸ List.mem_map_of_mem he)
      rw [hkey, Finmap.lookup_insert, Option.some_inj]
      constructor
      · rintro (he | ⟨-, hvalue⟩)
        · exact absurd he hmem
        · exact Or.inl (Or.inl (Prod.ext hkey hvalue.symm))
      · rintro ((rfl | he) | ⟨hno, -⟩)
        · exact Or.inr ⟨hl.1, rfl⟩
        · exact absurd he hmem
        · exact absurd (Or.inl rfl) hno
    · have hne : e ≠ e' := fun he => hkey (congrArg Prod.fst he)
      rw [Finmap.lookup_insert_of_ne _ hkey, or_iff_right hne, or_iff_right hkey]

theorem mem_of_lookup_foldl_insert {l : List (κ × β)} {acc : Finmap fun _ : κ => β} {e : κ × β}
    (h : (l.foldl (fun m e => m.insert e.1 e.2) acc).lookup e.1 = some e.2) :
    e ∈ l ∨ acc.lookup e.1 = some e.2 := by
  induction l generalizing acc with
  | nil => exact Or.inr h
  | cons e' l ih =>
    rcases ih h with hl | hacc
    · exact Or.inl (List.mem_cons_of_mem e' hl)
    · by_cases hkey : e.1 = e'.1
      · rw [hkey, Finmap.lookup_insert, Option.some_inj] at hacc
        exact Or.inl (List.mem_cons.mpr (Or.inl (Prod.ext hkey hacc.symm)))
      · rw [Finmap.lookup_insert_of_ne _ hkey] at hacc
        exact Or.inr hacc

theorem mem_of_lookup_collect {l : List (κ × β)} {e : κ × β}
    (h : (collect l).lookup e.1 = some e.2) : e ∈ l := by
  rcases mem_of_lookup_foldl_insert h with hl | hempty
  · exact hl
  · rw [Finmap.lookup_empty] at hempty
    cases hempty

/-- Entries under different keys are those of the map they are collected in. -/
theorem perm_entries_collect {l : List (κ × β)} :
    l.Perm (entries (collect l)) ↔ (l.map Prod.fst).Nodup := by
  refine ⟨fun h => (h.map Prod.fst).nodup_iff.mpr (nodup_entries _), fun hl => ?_⟩
  rw [List.perm_ext_iff_of_nodup hl.of_map (nodup_entries _).of_map]
  intro e
  unfold collect
  rw [mem_entries, lookup_foldl_insert_eq_some hl, Finmap.lookup_empty]
  simp

end Map

end Borsh
