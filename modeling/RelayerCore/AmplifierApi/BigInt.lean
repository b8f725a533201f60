import RelayerCore.AmplifierApi.Borsh
import RelayerCore.AmplifierApi.Json

/-!
# Amounts as strings (`amplifier-api/src/big_int.rs`)

JSON and borsh carry an amount as the decimal numeral of an `i128`.  Both read it by `str::parse`,
which takes more strings than are written: a numeral of a negative number is read on purpose, and
forwarded as it is.
-/

namespace RelayerCore
namespace BigInt

variable {s : String} {value : BigInt}

/-- Both deserializers read the string as the amount. -/
structure ReadAs (s : String) (value : BigInt) : Prop where
  json : BigInt.json.deserialize (.string s) = some value
  borsh : ∀ bytes rest, Borsh.string.deserialize bytes = some (s, rest) →
    BigInt.borsh.deserialize bytes = some (value, rest)

/-- Both deserializers refuse the string. -/
structure Refused (s : String) : Prop where
  json : BigInt.json.deserialize (.string s) = none
  borsh : ∀ bytes rest, Borsh.string.deserialize bytes = some (s, rest) →
    BigInt.borsh.deserialize bytes = none

/-- Both serializers write the amount as the string. -/
structure WrittenAs (value : BigInt) (s : String) : Prop where
  json : BigInt.json.serialize value = .string s
  borsh : BigInt.borsh.serialize value = Borsh.string.serialize s

theorem deserialize_borsh {bytes rest : List UInt8}
    (h : Borsh.string.deserialize bytes = some (s, rest)) :
    BigInt.borsh.deserialize bytes = (BigInt.parse s).map fun value => (value, rest) := by
  show (Borsh.string.deserialize bytes >>= _) = _
  rw [h]
  show (BigInt.parse s >>= _) = _
  cases BigInt.parse s <;> rfl

theorem readAs_iff : ReadAs s value ↔ BigInt.parse s = some value := by
  refine ⟨ReadAs.json, fun h => ⟨h, fun bytes rest hbytes => ?_⟩⟩
  rw [deserialize_borsh hbytes, h]
  rfl

theorem refused_iff : Refused s ↔ BigInt.parse s = none := by
  refine ⟨Refused.json, fun h => ⟨h, fun bytes rest hbytes => ?_⟩⟩
  rw [deserialize_borsh hbytes, h]
  rfl

theorem writtenAs_iff : WrittenAs value s ↔ value.toString = s := by
  constructor
  · intro h
    have hjson := h.json
    change Serde.Json.string value.toString = _ at hjson
    injection hjson
  · rintro rfl
    exact ⟨rfl, rfl⟩

theorem inRange_of_parse (h : BigInt.parse s = some value) : Decimal.parse s = some value.inner := by
  unfold BigInt.parse at h
  obtain ⟨k, hk, h⟩ := Option.bind_eq_some_iff.mp h
  split_ifs at h
  cases h
  exact hk

theorem exists_parse_iff : (∃ value, BigInt.parse s = some value) ↔
    ∃ k, Decimal.parse s = some k ∧ -2 ^ 127 ≤ k ∧ k < 2 ^ 127 := by
  constructor
  · rintro ⟨value, h⟩
    exact ⟨value.inner, inRange_of_parse h, value.lower, value.upper⟩
  · rintro ⟨k, hk, hlower, hupper⟩
    refine ⟨⟨k, hlower, hupper⟩, ?_⟩
    unfold BigInt.parse
    rw [hk]
    exact dif_pos ⟨hlower, hupper⟩

/-- A string is read by both deserializers or refused by both.  What is read is digits behind an
optional sign, as the number they stand for.  A numeral is read exactly when its number is one of
an `i128`, and it is written again as it was. -/
theorem reads_numerals (s : String) :
    ((∃ value, ReadAs s value) ∨ Refused s) ∧
    (∀ value, ReadAs s value →
      Decimal.isSigned s.toList = true ∧ value.inner = Decimal.value s.toList) ∧
    (Decimal.isNumeral s.toList = true →
      ((∃ value, ReadAs s value) ↔
        -2 ^ 127 ≤ Decimal.value s.toList ∧ Decimal.value s.toList < 2 ^ 127) ∧
      ∀ value, ReadAs s value → WrittenAs value s) := by
  have hparse := Decimal.parse_eq s
  simp only [readAs_iff, refused_iff, writtenAs_iff]
  refine ⟨?_, fun value hvalue => ?_, fun hnumeral => ⟨?_, fun value hvalue => ?_⟩⟩
  · cases BigInt.parse s with
    | none => exact Or.inr rfl
    | some value => exact Or.inl ⟨value, rfl⟩
  · rw [inRange_of_parse hvalue] at hparse
    split_ifs at hparse with hsigned
    exact ⟨hsigned, Option.some_inj.mp hparse⟩
  · rw [if_pos (Decimal.isSigned_of_isNumeral hnumeral)] at hparse
    rw [exists_parse_iff, hparse]
    simp
  · exact (Decimal.isNumeral_iff (inRange_of_parse hvalue)).mp hnumeral

/-- The least amount is read, and written again as it was. -/
theorem reads_least_amount :
    ReadAs "-170141183460469231731687303715884105728" ⟨-2 ^ 127, by decide, by decide⟩ ∧
      WrittenAs ⟨-2 ^ 127, by decide, by decide⟩ "-170141183460469231731687303715884105728" := by
  have hnumeral := (reads_numerals "-170141183460469231731687303715884105728").2.2 (by decide)
  obtain ⟨value, hvalue⟩ := hnumeral.1.mpr (by decide)
  have hinner : value.inner = -2 ^ 127 :=
    ((reads_numerals "-170141183460469231731687303715884105728").2.1 value hvalue).2
  obtain ⟨inner, lower, upper⟩ := value
  subst hinner
  exact ⟨hvalue, hnumeral.2 _ hvalue⟩

/-- `-12345` does not match the documented pattern, and is read. -/
theorem negative_amount_read : Decimal.isNatNumeral "-12345".toList = false ∧
    BigInt.json.deserialize (.string "-12345") = some ⟨-12345, by decide, by decide⟩ := by
  decide

end BigInt
end RelayerCore
