import Mathlib.Tactic

/-!
# Percent-encoding

Characters of a set are written as the escapes of their UTF-8 bytes.  Decoding what was encoded
gives what decoding gives of the text itself: the text, unless it has escapes of its own, and less
bytes than the text has otherwise.
-/

namespace PercentCode

/-- The UTF-8 bytes of a text. -/
def utf8 (cs : List Char) : List UInt8 := cs.flatMap String.utf8EncodeChar

/-- An upper-case hexadecimal digit. -/
def hexDigit (n : ℕ) : Char := if n < 10 then Char.ofNat (0x30 + n) else Char.ofNat (0x41 + n - 10)

/-- The value of a hexadecimal digit. -/
def unhex (c : Char) : Option ℕ :=
  if 0x30 ≤ c.toNat ∧ c.toNat ≤ 0x39 then some (c.toNat - 0x30)
  else if 0x41 ≤ c.toNat ∧ c.toNat ≤ 0x46 then some (c.toNat - 0x41 + 10)
  else if 0x61 ≤ c.toNat ∧ c.toNat ≤ 0x66 then some (c.toNat - 0x61 + 10)
  else none

/-- The escape of a byte. -/
def escape (b : UInt8) : List Char := ['%', hexDigit (b.toNat / 16), hexDigit (b.toNat % 16)]

/-- A character, or the escapes of its bytes when it is in the set. -/
def encodeChar (set : Char → Bool) (c : Char) : List Char :=
  if set c then (String.utf8EncodeChar c).flatMap escape else [c]

def encode (set : Char → Bool) (cs : List Char) : List Char := cs.flatMap (encodeChar set)

/-- The bytes of a text, an escape being one byte. -/
def decode : List Char → List UInt8
  | c :: a :: b :: cs =>
    match decide (c = '%'), unhex a, unhex b with
    | true, some high, some low => UInt8.ofNat (16 * high + low) :: decode cs
    | _, _, _ => String.utf8EncodeChar c ++ decode (a :: b :: cs)
  | cs => utf8 cs

/-- The text begins with two hexadecimal digits. -/
def startsHex : List Char → Bool
  | a :: b :: _ => (unhex a).isSome && (unhex b).isSome
  | _ => false

/-- There is an escape in the text. -/
def hasEscape : List Char → Bool
  | [] => false
  | c :: cs => decide (c = '%') && startsHex cs || hasEscape cs

/-! ### UTF-8 -/

section Utf8

variable {cs ds : List Char} {c : Char}

@[simp] theorem utf8_nil : utf8 [] = [] := rfl

theorem utf8_cons (c : Char) (cs : List Char) :
    utf8 (c :: cs) = String.utf8EncodeChar c ++ utf8 cs := List.flatMap_cons

theorem length_utf8_cons (c : Char) (cs : List Char) :
    (utf8 (c :: cs)).length = c.utf8Size + (utf8 cs).length := by
  rw [utf8_cons, List.length_append, String.length_utf8EncodeChar]

theorem utf8_inj : utf8 cs = utf8 ds ↔ cs = ds := by
  refine ⟨fun h => ?_, fun h => by rw [h]⟩
  have hbytes : cs.utf8Encode = ds.utf8Encode := congrArg List.toByteArray h
  have hstring : String.ofList cs = String.ofList ds := by
    apply String.toByteArray_inj.mp
    rw [String.toByteArray_ofList, String.toByteArray_ofList, hbytes]
  exact String.ofList_injective hstring

/-- A proper part of a text has less bytes. -/
theorem length_utf8_lt (hsub : cs.Sublist ds) (hlt : cs.length < ds.length) :
    (utf8 cs).length < (utf8 ds).length := by
  have hle : ∀ {cs ds : List Char}, cs.Sublist ds → (utf8 cs).length ≤ (utf8 ds).length :=
    fun hsub => (hsub.flatMap String.utf8EncodeChar).length_le
  induction hsub with
  | slnil => exact absurd hlt (Nat.lt_irrefl _)
  | cons d hsub ih =>
    rw [length_utf8_cons]
    have hpos := d.utf8Size_pos
    have := hle hsub
    omega
  | cons_cons d hsub ih =>
    rw [length_utf8_cons, length_utf8_cons]
    exact Nat.add_lt_add_left (ih (Nat.lt_of_succ_lt_succ hlt)) _

end Utf8

/-! ### Decoding -/

section Decode

variable {set : Char → Bool} {cs : List Char} {c : Char}

/-- A character that starts no escape. -/
theorem decode_cons (h : c = '%' → startsHex cs = false) :
    decode (c :: cs) = String.utf8EncodeChar c ++ decode cs := by
  match cs with
  | [] => rfl
  | [a] => rfl
  | a :: b :: cs =>
    rw [decode]
    split
    · rename_i high low hc ha hb
      have hstarts := h (of_decide_eq_true hc)
      simp [startsHex, ha, hb] at hstarts
    · rfl

theorem decode_escape {a b : Char} {high low : ℕ} (ha : unhex a = some high)
    (hb : unhex b = some low) (cs : List Char) :
    decode ('%' :: a :: b :: cs) = UInt8.ofNat (16 * high + low) :: decode cs := by
  rw [decode, ha, hb]
  rfl

theorem unhex_hexDigit : ∀ n < 16, unhex (hexDigit n) = some n := by decide

theorem decode_escape_append (b : UInt8) (cs : List Char) :
    decode (escape b ++ cs) = b :: decode cs := by
  have hb := b.toNat_lt
  have hsplit : 16 * (b.toNat / 16) + b.toNat % 16 = b.toNat := Nat.div_add_mod _ _
  show decode ('%' :: _ :: _ :: cs) = _
  rw [decode_escape (unhex_hexDigit _ (by omega)) (unhex_hexDigit _ (by omega)), hsplit,
    UInt8.ofNat_toNat]

theorem decode_escapes_append (bytes : List UInt8) (cs : List Char) :
    decode (bytes.flatMap escape ++ cs) = bytes ++ decode cs := by
  induction bytes with
  | nil => rfl
  | cons b bytes ih =>
    rw [List.flatMap_cons, List.append_assoc, decode_escape_append, ih]
    rfl

theorem startsHex_eq_true : startsHex cs = true ↔ ∃ a b high low rest, cs = a :: b :: rest ∧
    unhex a = some high ∧ unhex b = some low := by
  match cs with
  | [] => simp [startsHex]
  | [a] => simp [startsHex]
  | a :: b :: rest => simp [startsHex, Option.isSome_iff_exists]

/-- Without escapes a text is decoded to its bytes. -/
theorem decode_eq (h : hasEscape cs = false) : decode cs = utf8 cs := by
  induction cs with
  | nil => rfl
  | cons c cs ih =>
    rw [hasEscape, Bool.or_eq_false_iff, Bool.and_eq_false_iff] at h
    have hstart : c = '%' → startsHex cs = false := by
      intro hc
      rcases h.1 with hne | hstarts
      · exact absurd hc (of_decide_eq_false hne)
      · exact hstarts
    rw [decode_cons hstart, ih h.2, utf8_cons]

theorem length_decode_le (cs : List Char) : (decode cs).length ≤ (utf8 cs).length ∧
    (hasEscape cs = true → (decode cs).length < (utf8 cs).length) := by
  induction hn : cs.length using Nat.strong_induction_on generalizing cs with
  | _ n ih =>
    subst hn
    cases cs with
    | nil => exact ⟨le_refl _, fun h => by cases h⟩
    | cons c cs =>
      by_cases hescape : c = '%' ∧ startsHex cs = true
      · -- one byte for three characters
        obtain ⟨rfl, hstarts⟩ := hescape
        obtain ⟨a, b, high, low, rest, rfl, ha, hb⟩ := startsHex_eq_true.mp hstarts
        have hrest := (ih rest.length (by simp only [List.length_cons]; omega) rest rfl).1
        have hpos := a.utf8Size_pos
        rw [decode_escape ha hb, length_utf8_cons, length_utf8_cons, length_utf8_cons,
          List.length_cons]
        constructor
        · omega
        · intro _
          have hpos' := b.utf8Size_pos
          omega
      · have hstart : c = '%' → startsHex cs = false := fun hc =>
          Bool.eq_false_of_not_eq_true fun h => hescape ⟨hc, h⟩
        have hcs := ih cs.length (Nat.lt_succ_self _) cs rfl
        rw [decode_cons hstart, length_utf8_cons, List.length_append,
          String.length_utf8EncodeChar]
        refine ⟨Nat.add_le_add_left hcs.1 _, fun h => Nat.add_lt_add_left (hcs.2 ?_) _⟩
        rw [hasEscape, Bool.or_eq_true, Bool.and_eq_true, decide_eq_true_eq] at h
        exact h.resolve_left hescape

/-- A text is decoded to its bytes exactly when it has no escapes. -/
theorem decode_eq_utf8_iff : decode cs = utf8 cs ↔ hasEscape cs = false := by
  refine ⟨fun h => ?_, decode_eq⟩
  apply Bool.eq_false_of_not_eq_true
  intro hescape
  have hlt := (length_decode_le cs).2 hescape
  rw [h] at hlt
  exact Nat.lt_irrefl _ hlt

/-! ### Encoding -/

/-- The set leaves the percent sign and the hexadecimal digits as they are. -/
def KeepsEscapes (set : Char → Bool) : Prop :=
  ∀ c, c = '%' ∨ (unhex c).isSome = true → set c = false

theorem encode_cons (set : Char → Bool) (c : Char) (cs : List Char) :
    encode set (c :: cs) = encodeChar set c ++ encode set cs := List.flatMap_cons

theorem encode_append (set : Char → Bool) (cs ds : List Char) :
    encode set (cs ++ ds) = encode set cs ++ encode set ds := List.flatMap_append

theorem encodeChar_of_false (h : set c = false) : encodeChar set c = [c] := by
  unfold encodeChar
  rw [h]
  rfl

/-- An encoded character begins with a percent sign. -/
theorem encodeChar_of_true (h : set c = true) : ∃ rest, encodeChar set c = '%' :: rest := by
  unfold encodeChar
  rw [if_pos h]
  cases hbytes : String.utf8EncodeChar c with
  | nil => exact absurd hbytes String.utf8EncodeChar_ne_nil
  | cons b bytes => exact ⟨_, rfl⟩

theorem startsHex_percent (cs : List Char) : startsHex ('%' :: cs) = false := by
  cases cs <;> rfl

/-- Encoding makes no escape out of a percent sign. -/
theorem startsHex_encode (hset : KeepsEscapes set) (cs : List Char) :
    startsHex (encode set cs) = startsHex cs := by
  match cs with
  | [] => rfl
  | a :: cs =>
    rw [encode_cons]
    cases ha : set a with
    | true =>
      obtain ⟨rest, hrest⟩ := encodeChar_of_true ha
      have hno : (unhex a).isSome = false := by
        apply Bool.eq_false_of_not_eq_true
        intro hsome
        rw [hset a (Or.inr hsome)] at ha
        cases ha
      rw [hrest, List.cons_append, startsHex_percent]
      cases cs with
      | nil => rfl
      | cons b cs => simp [startsHex, hno]
    | false =>
      rw [encodeChar_of_false ha]
      match cs with
      | [] => rfl
      | b :: cs =>
        rw [encode_cons]
        cases hb : set b with
        | true =>
          obtain ⟨rest, hrest⟩ := encodeChar_of_true hb
          have hno : (unhex b).isSome = false := by
            apply Bool.eq_false_of_not_eq_true
            intro hsome
            rw [hset b (Or.inr hsome)] at hb
            cases hb
          have hpercent : (unhex '%').isSome = false := rfl
          rw [hrest]
          simp [startsHex, hno, hpercent]
        | false =>
          rw [encodeChar_of_false hb]
          rfl

/-- Decoding does not see what was encoded. -/
theorem decode_encode (hset : KeepsEscapes set) (cs : List Char) :
    decode (encode set cs) = decode cs := by
  induction hn : cs.length using Nat.strong_induction_on generalizing cs with
  | _ n ih =>
    subst hn
    cases cs with
    | nil => rfl
    | cons c cs =>
      have hcs := ih cs.length (Nat.lt_succ_self _) cs rfl
      rw [encode_cons]
      by_cases hescape : c = '%' ∧ startsHex cs = true
      · obtain ⟨rfl, hstarts⟩ := hescape
        obtain ⟨a, b, high, low, rest, rfl, ha, hb⟩ := startsHex_eq_true.mp hstarts
        have hrest := ih rest.length (by simp only [List.length_cons]; omega) rest rfl
        have hsomes : (unhex a).isSome = true ∧ (unhex b).isSome = true := by
          rw [ha, hb]
          exact ⟨rfl, rfl⟩
        rw [encode_cons, encode_cons, encodeChar_of_false (hset _ (Or.inl rfl)),
          encodeChar_of_false (hset _ (Or.inr hsomes.1)),
          encodeChar_of_false (hset _ (Or.inr hsomes.2))]
        show decode ('%' :: a :: b :: encode set rest) = _
        rw [decode_escape ha hb, decode_escape ha hb, hrest]
      · have hstart : c = '%' → startsHex cs = false := fun hc =>
          Bool.eq_false_of_not_eq_true fun h => hescape ⟨hc, h⟩
        rw [decode_cons hstart, ← hcs]
        cases hc : set c with
        | true =>
          unfold encodeChar
          rw [if_pos hc, decode_escapes_append]
        | false =>
          rw [encodeChar_of_false hc]
          exact decode_cons fun hpercent =>
            (startsHex_encode hset cs).trans (hstart hpercent)

end Decode

end PercentCode
