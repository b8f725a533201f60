import RelayerCore.AmplifierApi.Spelling
import RelayerCore.Queue.Publish

/-!
# What the consumers decode (`infrastructure/src/nats/consumer.rs`, `gcp/consumer.rs`,
`gcp/kv_store.rs`)

Both consumers decode the front of a message and drop what follows; the store reads its values by
`borsh::from_slice`, which refuses them when something is left over.
-/

namespace RelayerCore
namespace Queue

open Codec GcpConsumer

variable {T : Type} {c : Codec T} {content : MessageContent T} {bytes rest : List UInt8}

/-- The entries of the headers as they are sent. -/
def headerEntries : Codec (List (String × String)) := Codec.list (Borsh.string.pair Borsh.string)

/-- The bytes are the content's encoding, up to the order of the headers. -/
def EncodedUnordered (c : Codec T) (content : MessageContent T) (bytes : List UInt8) : Prop :=
  ∃ es, es.Perm (Borsh.entries content.headers) ∧
    bytes = headerEntries.serialize es ++ c.serialize content.data

/-! ### Conditions on the bytes -/

/-- Nothing follows the value, and its amounts are numerals. -/
structure WellSpelled (S : Amounts c) (bytes : List UInt8) : Prop where
  whole : (Borsh.fromSlice c bytes).isSome = true
  amounts : ∀ s ∈ S.parts bytes, Decimal.isNumeral s.toList = true

/-- No header comes twice, and the data is well spelled. -/
def EnvelopeSpelled (S : Amounts c) (bytes : List UInt8) : Prop :=
  ∃ es data, headerEntries.deserialize bytes = some (es, data) ∧ (es.map Prod.fst).Nodup ∧
    WellSpelled S data

/-- What the consumers' decoders return for the message is what it encodes, exactly when it is well
spelled. -/
structure StrictOn (S : Amounts c) (payload : List UInt8) (subscriptionName : String)
    (msg : PubsubMessage) : Prop where
  nats : ∀ v, decodeNats c payload = some v → (payload = c.serialize v ↔ WellSpelled S payload)
  gcp : ∀ m, decodeGcp c subscriptionName msg = .ok m →
    ∃ content rest, (MessageContent.borsh c).deserialize msg.data = some (content, rest) ∧
      content.data = m.decoded ∧
      (EncodedUnordered c content msg.data ↔ EnvelopeSpelled S msg.data)

/-! ### The value -/

theorem eq_serialize_iff_wellSpelled (S : Amounts c) {v : T}
    (h : c.deserialize bytes = some (v, rest)) :
    bytes = c.serialize v ↔ WellSpelled S bytes := by
  rw [S.eq_serialize_iff h, ← Borsh.isSome_fromSlice h]
  exact ⟨fun h => ⟨h.1, h.2⟩, fun h => ⟨h.whole, h.amounts⟩⟩

/-! ### The envelope -/

theorem strict_headerEntries : headerEntries.Strict :=
  (Borsh.strict_string.pair Borsh.strict_string).list

theorem content_eq_some (h : (MessageContent.borsh c).deserialize bytes = some (content, rest)) :
    ∃ es data, headerEntries.deserialize bytes = some (es, data) ∧
      Borsh.collect es = content.headers ∧ c.deserialize data = some (content.data, rest) := by
  obtain ⟨p, hp, rfl⟩ := via_eq_some h
  obtain ⟨data, hheaders, hdata⟩ := pair_eq_some hp
  obtain ⟨es, hes, hcollect⟩ := via_eq_some hheaders
  exact ⟨es, data, hes, hcollect, hdata⟩

/-- Entries that fit still fit when they are collected in a map. -/
theorem fits_of_perm_collect {es es' : List (String × String)} (h : headerEntries.Fits es)
    (hperm : es'.Perm (Borsh.entries (Borsh.collect es))) : headerEntries.Fits es' := by
  have hmem : ∀ e ∈ es', e ∈ es := fun e he =>
    Borsh.mem_of_lookup_collect (Borsh.mem_entries.mp (hperm.mem_iff.mp he))
  have hnodup : es'.Nodup := hperm.nodup_iff.mpr (Borsh.nodup_entries _).of_map
  have hlength := (hnodup.subperm hmem).length_le
  exact ⟨lt_of_le_of_lt hlength h.1, fun e he => h.2 e (hmem e he)⟩

theorem encodedUnordered_iff (S : Amounts c)
    (h : (MessageContent.borsh c).deserialize bytes = some (content, rest)) :
    EncodedUnordered c content bytes ↔ EnvelopeSpelled S bytes := by
  obtain ⟨es, data, hes, hcollect, hdata⟩ := content_eq_some h
  have hvalue := eq_serialize_iff_wellSpelled S hdata
  constructor
  · rintro ⟨es', hperm, hbytes⟩
    rw [← hcollect] at hperm
    have hfits := fits_of_perm_collect (strict_headerEntries.fits hes) hperm
    -- the entries that are read are the ones that were written
    have hread := headerEntries.deserialize_serialize es' hfits (c.serialize content.data)
    rw [← hbytes, hes] at hread
    cases hread
    exact ⟨es, _, hes, Borsh.perm_entries_collect.mp hperm, hvalue.mp rfl⟩
  · rintro ⟨es', data', hes', hnodup, hspelled⟩
    rw [hes] at hes'
    cases hes'
    refine ⟨es, ?_, ?_⟩
    · rw [← hcollect]
      exact Borsh.perm_entries_collect.mpr hnodup
    · rw [← hvalue.mpr hspelled]
      exact strict_headerEntries.eq hes

/-! ### The decoders -/

theorem strictOn (S : Amounts c) (payload : List UInt8) (subscriptionName : String)
    (msg : PubsubMessage) : StrictOn S payload subscriptionName msg := by
  refine ⟨fun v h => ?_, fun m h => ?_⟩
  · obtain ⟨⟨v', rest⟩, hread, rfl⟩ := Option.map_eq_some_iff.mp h
    exact eq_serialize_iff_wellSpelled S hread
  · unfold decodeGcp GcpConsumer.decode at h
    split at h
    · cases h
    · split at h
      · cases h
      · rename_i decoded hdecoded
        obtain ⟨⟨content, rest⟩, hread, rfl⟩ := Option.map_eq_some_iff.mp hdecoded
        cases h
        exact ⟨content, rest, hread, rfl, encodedUnordered_iff S hread⟩

/-- For events and tasks, what a consumer decodes is the encoding of what it returns exactly when
nothing follows the value, every amount in it is a numeral and, in an envelope, no header comes
twice. -/
theorem decoded_is_encoded_iff (payload : List UInt8) (subscriptionName : String)
    (msg : PubsubMessage) :
    StrictOn Event.amounts payload subscriptionName msg ∧
      StrictOn TaskItem.amounts payload subscriptionName msg :=
  ⟨strictOn Event.amounts payload subscriptionName msg,
    strictOn TaskItem.amounts payload subscriptionName msg⟩

/-- A task without data, of the nil UUID at the epoch. -/
def emptyTask : TaskItem := ⟨⟨0⟩, ⟨0, 0⟩, .gatewayTx ⟨[]⟩⟩

/-- A byte behind a task is dropped by the consumer, and refused by the store. -/
theorem trailing_byte_dropped :
    decodeNats TaskItem.borsh (TaskItem.borsh.serialize emptyTask ++ [7]) = some emptyTask ∧
      TaskItem.borsh.serialize emptyTask ++ [7] ≠ TaskItem.borsh.serialize emptyTask ∧
      Borsh.fromSlice TaskItem.borsh (TaskItem.borsh.serialize emptyTask ++ [7]) = none := by
  decide +kernel

end Queue
end RelayerCore
