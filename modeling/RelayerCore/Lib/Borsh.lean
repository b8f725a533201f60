import Mathlib.Data.Finmap
import Mathlib.Data.Finset.Sort
import RelayerCore.Lib.Codec

/-!
# The borsh format

Numbers lie with the lowest byte first; a string or a list comes after its length, an optional value
after a flag; a map is the list of its entries in the order of the keys.  Serializing a string, a
list or a map of length `2 ^ 32` or more is an error in borsh: these values do not fit.
-/

namespace Borsh

open Codec

/-! ### Scalars -/

def unit : Codec Unit where
  serialize _ := []
  deserialize bytes := some ((), bytes)
  Fits _ := True
  deserialize_serialize _ _ _ := rfl

def u8 : Codec UInt8 where
  serialize b := [b]
  deserialize
    | b :: bytes => some (b, bytes)
    | [] => none
  Fits _ := True
  deserialize_serialize _ _ _ := rfl

def bool : Codec Bool :=
  u8.check (fun b => if b then 1 else 0) (fun | 0 => some false | 1 => some true | _ => none)
    (fun _ => True) (by decide)

def u32 : Codec ℕ := nat 4

def u64 : Codec UInt64 := (nat 8).via UInt64.toNat UInt64.ofNat fun _ => UInt64.ofNat_toNat

/-- A number of 64 bits, by its two's complement. -/
def i64 : Codec ℤ :=
  (nat 8).check (fun k => (k % 2 ^ 64).toNat)
    (fun n => some (if n < 2 ^ 63 then (n : ℤ) else n - 2 ^ 64))
    (fun k => -2 ^ 63 ≤ k ∧ k < 2 ^ 63) fun k hk => by
      rw [Option.some_inj]
      split_ifs <;> omega

/-- The bytes of an array of 16, the highest first. -/
def bits128 : Codec (BitVec 128) where
  serialize b := (toBytes 16 b.toNat).reverse
  deserialize bytes := (split 16 bytes).map fun p => (BitVec.ofNat 128 (ofBytes p.1.reverse), p.2)
  Fits _ := True
  deserialize_serialize b _ rest := by
    rw [split_append (by simp)]
    simp [ofBytes_toBytes, Nat.mod_eq_of_lt b.isLt]

def bytes : Codec (List UInt8) := list u8

def string : Codec String :=
  bytes.check (fun s => s.toUTF8.data.toList) (fun l => String.fromUTF8? ⟨l.toArray⟩)
    (fun _ => True) fun s _ => by
      have hbytes : (⟨s.toUTF8.data.toList.toArray⟩ : ByteArray) = s.toByteArray := rfl
      rw [hbytes, String.fromUTF8?, dif_pos s.isValidUTF8]
      rfl

@[simp] theorem fits_u64 (n : UInt64) : u64.Fits n := n.toNat_lt

@[simp] theorem fits_bytes {l : List UInt8} : bytes.Fits l ↔ l.length < 2 ^ 32 :=
  and_iff_left fun _ _ => trivial

theorem fits_string {s : String} : string.Fits s ↔ s.utf8ByteSize < 2 ^ 32 :=
  (and_iff_right trivial).trans fits_bytes

/-- Every character takes at most four bytes. -/
theorem utf8ByteSize_le (s : String) : s.utf8ByteSize ≤ 4 * s.length := by
  suffices h : ∀ l : List Char, (String.ofList l).utf8ByteSize ≤ 4 * l.length by
    have hs := h s.toList
    rwa [String.ofList_toList] at hs
  intro l
  induction l with
  | nil => simp
  | cons c l ih =>
    have hcons : String.ofList (c :: l) = String.singleton c ++ String.ofList l := by
      rw [String.singleton_eq_ofList, ← String.ofList_append]
      rfl
    have hc := c.utf8Size_le_four
    rw [hcons, String.utf8ByteSize_append, String.utf8ByteSize_singleton, List.length_cons]
    omega

@[simp] theorem fits_bool (b : Bool) : bool.Fits b := ⟨trivial, trivial⟩

/-! ### Maps -/

section Map

variable {κ β : Type} [LinearOrder κ]

/-- The entries in the order of the keys. -/
def entries (m : Finmap fun _ : κ => β) : List (κ × β) :=
  m.keys.sort.filterMap fun k => (m.lookup k).map (k, ·)

/-- Insert entries one after the other. -/
def collect (l : List (κ × β)) : Finmap fun _ : κ => β :=
  l.foldl (fun m e => m.insert e.1 e.2) ∅

theorem mem_entries {m : Finmap fun _ : κ => β} {e : κ × β} :
    e ∈ entries m ↔ m.lookup e.1 = some e.2 := by
  unfold entries
  simp only [List.mem_filterMap, Finset.mem_sort, Option.map_eq_some_iff]
  constructor
  · rintro ⟨k, -, v, hv, rfl⟩
    exact hv
  · intro h
    refine ⟨e.1, ?_, e.2, h, rfl⟩
    rw [Finmap.mem_keys, ← Finmap.lookup_isSome, h]
    rfl

/-- Entries that agree with a map determine what is inserted. -/
theorem lookup_foldl_insert {m : Finmap fun _ : κ => β} {l : List (κ × β)}
    (h : ∀ e ∈ l, m.lookup e.1 = some e.2) (acc : Finmap fun _ : κ => β) (k : κ) :
    (l.foldl (fun m e => m.insert e.1 e.2) acc).lookup k =
      if k ∈ l.map Prod.fst then m.lookup k else acc.lookup k := by
  induction l generalizing acc with
  | nil => simp
  | cons e l ih =>
    obtain ⟨he, hl⟩ := List.forall_mem_cons.mp h
    rw [List.foldl_cons, ih hl, List.map_cons]
    by_cases hk : k ∈ l.map Prod.fst
    · rw [if_pos hk, if_pos (List.mem_cons_of_mem _ hk)]
    · rw [if_neg hk]
      by_cases hke : k = e.1
      · subst hke
        rw [Finmap.lookup_insert, if_pos (by simp), he]
      · rw [Finmap.lookup_insert_of_ne _ hke, if_neg]
        rw [List.mem_cons, not_or]
        exact ⟨hke, hk⟩

theorem collect_entries (m : Finmap fun _ : κ => β) : collect (entries m) = m := by
  refine Finmap.ext_lookup fun k => ?_
  unfold collect
  rw [lookup_foldl_insert fun e he => mem_entries.mp he]
  split_ifs with hk
  · rfl
  · rw [Finmap.lookup_empty]
    cases hv : m.lookup k with
    | none => rfl
    | some v => exact absurd (List.mem_map.mpr ⟨(k, v), mem_entries.mpr hv, rfl⟩) hk

/-- A map, as the list of its entries in the order of the keys. -/
def map (c : Codec κ) (d : Codec β) : Codec (Finmap fun _ : κ => β) :=
  (list (c.pair d)).via entries collect collect_entries

theorem fits_map {c : Codec κ} {d : Codec β} {m : Finmap fun _ : κ => β}
    (hcard : m.keys.card < 2 ^ 32)
    (hm : ∀ k v, m.lookup k = some v → c.Fits k ∧ d.Fits v) : (map c d).Fits m := by
  refine ⟨lt_of_le_of_lt ?_ hcard, fun e he => hm e.1 e.2 (mem_entries.mp he)⟩
  exact le_trans (List.length_filterMap_le _ _) (Finset.length_sort _).le

end Map

end Borsh
