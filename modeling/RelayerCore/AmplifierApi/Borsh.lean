import RelayerCore.AmplifierApi.Types
import RelayerCore.Lib.Borsh

/-!
# The borsh encoding of events and tasks (`amplifier-api/src/types.rs`, `util.rs`, `big_int.rs`)

The derived encodings list the fields of a structure in order, and put the number of a variant
before its content.  Three are written by hand: a timestamp is the pair of its seconds and
nanoseconds, an optional timestamp has its own flag byte, and an amount is the string of its
decimal digits.
-/

namespace RelayerCore

/-! ### Timestamps -/

/-- The first second of the years `chrono` knows, and the last. -/
def DateTime.MIN_UTC : ℤ := -8334601228800

def DateTime.MAX_UTC : ℤ := 8210266876799

/-- `chrono` accepts a leap second, with a nanosecond part of `10 ^ 9` or more, only after second
59 of a minute. -/
structure DateTime.Valid (t : DateTime) : Prop where
  lower : DateTime.MIN_UTC ≤ t.secs
  upper : t.secs ≤ DateTime.MAX_UTC
  nanos : t.nanos < 10 ^ 9 ∨ t.nanos < 2 * 10 ^ 9 ∧ t.secs % 60 = 59

theorem DateTime.valid_iff {t : DateTime} : t.Valid ↔
    DateTime.MIN_UTC ≤ t.secs ∧ t.secs ≤ DateTime.MAX_UTC ∧
      (t.nanos < 10 ^ 9 ∨ t.nanos < 2 * 10 ^ 9 ∧ t.secs % 60 = 59) :=
  ⟨fun h => ⟨h.lower, h.upper, h.nanos⟩, fun h => ⟨h.1, h.2.1, h.2.2⟩⟩

instance (t : DateTime) : Decidable t.Valid := decidable_of_iff _ DateTime.valid_iff.symm

/-- `DateTime::from_timestamp`. -/
def DateTime.fromTimestamp (secs : ℤ) (nsecs : ℕ) : Option DateTime :=
  if DateTime.Valid ⟨secs, nsecs⟩ then some ⟨secs, nsecs⟩ else none

def serializeUtc (value : DateTime) : List UInt8 :=
  (Borsh.i64.pair Borsh.u32).serialize (value.secs, value.nanos)

def deserializeUtc (reader : List UInt8) : Option (DateTime × List UInt8) := do
  let ((secs, nsecs), reader) ← (Borsh.i64.pair Borsh.u32).deserialize reader
  let datetime ← DateTime.fromTimestamp secs nsecs
  return (datetime, reader)

def serializeOptionUtc : Option DateTime → List UInt8
  | some dt => 1 :: serializeUtc dt
  | none => [0]

def deserializeOptionUtc : List UInt8 → Option (Option DateTime × List UInt8)
  | 0 :: reader => some (none, reader)
  | 1 :: reader => do
    let (datetime, reader) ← deserializeUtc reader
    return (some datetime, reader)
  | _ => none

theorem deserializeUtc_serializeUtc {t : DateTime} (h : t.Valid) (rest : List UInt8) :
    deserializeUtc (serializeUtc t ++ rest) = some (t, rest) := by
  have hsecs : Borsh.i64.Fits t.secs := by
    have hlower := h.lower
    have hupper := h.upper
    unfold DateTime.MIN_UTC at hlower
    unfold DateTime.MAX_UTC at hupper
    refine ⟨⟨by omega, by omega⟩, ?_⟩
    show (t.secs % 2 ^ 64).toNat < 256 ^ 8
    omega
  have hnanos : Borsh.u32.Fits t.nanos := by
    have hnanos := h.nanos
    show t.nanos < 256 ^ 4
    omega
  have hpair := (Borsh.i64.pair Borsh.u32).deserialize_serialize (t.secs, t.nanos)
    ⟨hsecs, hnanos⟩ rest
  have htime : DateTime.fromTimestamp t.secs t.nanos = some t := if_pos h
  unfold deserializeUtc serializeUtc
  simp [hpair, htime]

def utc : Codec DateTime where
  serialize := serializeUtc
  deserialize := deserializeUtc
  Fits := DateTime.Valid
  deserialize_serialize _ := deserializeUtc_serializeUtc

def optionUtc : Codec (Option DateTime) where
  serialize := serializeOptionUtc
  deserialize := deserializeOptionUtc
  Fits o := ∀ t ∈ o, t.Valid
  deserialize_serialize o ho rest := by
    cases o with
    | none => rfl
    | some t => simp [serializeOptionUtc, deserializeOptionUtc, deserializeUtc_serializeUtc (ho t rfl)]

/-! ### Amounts and identifiers -/

/-- `big_int::serialize` and `big_int::deserialize`. -/
def BigInt.borsh : Codec BigInt :=
  Borsh.string.check BigInt.toString BigInt.parse (fun _ => True) fun value _ =>
    BigInt.parse_toString value

def TxId.borsh : Codec TxId := Borsh.string.via TxId.val TxId.mk fun _ => rfl

def TokenId.borsh : Codec TokenId := Borsh.string.via TokenId.val TokenId.mk fun _ => rfl

def TxEvent.borsh : Codec TxEvent := Borsh.string.via TxEvent.val TxEvent.mk fun _ => rfl

def TaskItemId.borsh : Codec TaskItemId :=
  Borsh.bits128.via TaskItemId.uuid TaskItemId.mk fun _ => rfl

def CommandId.borsh : Codec CommandId := Borsh.string.via CommandId.val CommandId.mk fun _ => rfl

/-- Every amount fits: it has at most 39 digits and a sign. -/
@[simp] theorem BigInt.fits_borsh (value : BigInt) : BigInt.borsh.Fits value := by
  have habs : value.inner.natAbs < 10 ^ 39 := by
    have hlower := value.lower
    have hupper := value.upper
    norm_num at hlower hupper ⊢
    omega
  have hlength := Decimal.length_repr_le (by decide) habs
  have hsize := Borsh.utf8ByteSize_le value.toString
  refine ⟨trivial, Borsh.fits_string.mpr ?_⟩
  unfold BigInt.toString at hsize ⊢
  omega

def CannotExecuteMessageReason.borsh : Codec CannotExecuteMessageReason :=
  Borsh.u8.check (fun | .insufficientGas => 0 | .error => 1)
    (fun | 0 => some .insufficientGas | 1 => some .error | _ => none) (fun _ => True)
    fun reason _ => by cases reason <;> rfl

def MessageExecutionStatus.borsh : Codec MessageExecutionStatus :=
  Borsh.u8.check (fun | .successful => 0 | .reverted => 1)
    (fun | 0 => some .successful | 1 => some .reverted | _ => none) (fun _ => True)
    fun status _ => by cases status <;> rfl

def Token.borsh : Codec Token :=
  (TokenId.borsh.option.pair BigInt.borsh).via (fun t => (t.tokenId, t.amount))
    (fun (tokenId, amount) => ⟨tokenId, amount⟩) fun _ => rfl

def GatewayV2Message.borsh : Codec GatewayV2Message :=
  (TxEvent.borsh.pair (Borsh.string.pair (Borsh.string.pair (Borsh.string.pair Borsh.bytes)))).via
    (fun m => (m.messageId, m.sourceChain, m.sourceAddress, m.destinationAddress, m.payloadHash))
    (fun (messageId, sourceChain, sourceAddress, destinationAddress, payloadHash) =>
      ⟨messageId, sourceChain, sourceAddress, destinationAddress, payloadHash⟩) fun _ => rfl

/-! ### Events -/

section Base

variable {T : Type}

def EventMetadata.borsh (extra : Codec T) : Codec (EventMetadata T) :=
  (TxId.borsh.option.pair (optionUtc.pair
      (Borsh.string.option.pair (Borsh.bool.option.pair extra)))).via
    (fun m => (m.txId, m.timestamp, m.fromAddress, m.finalized, m.extra))
    (fun (txId, timestamp, fromAddress, finalized, extra) =>
      ⟨txId, timestamp, fromAddress, finalized, extra⟩) fun _ => rfl

def EventBase.borsh (extra : Codec T) : Codec (EventBase T) :=
  (TxEvent.borsh.pair (EventMetadata.borsh extra).option).via (fun b => (b.eventId, b.metadata))
    (fun (eventId, metadata) => ⟨eventId, metadata⟩) fun _ => rfl

end Base

def CallEventMetadata.borsh : Codec CallEventMetadata :=
  TxEvent.borsh.option.via CallEventMetadata.parentMessageId CallEventMetadata.mk fun _ => rfl

def MessageApprovedEventMetadata.borsh : Codec MessageApprovedEventMetadata :=
  CommandId.borsh.option.via MessageApprovedEventMetadata.commandId MessageApprovedEventMetadata.mk
    fun _ => rfl

def MessageExecutedEventMetadata.borsh : Codec MessageExecutedEventMetadata :=
  (CommandId.borsh.option.pair (Codec.list TxEvent.borsh).option).via
    (fun m => (m.commandId, m.childMessageIds))
    (fun (commandId, childMessageIds) => ⟨commandId, childMessageIds⟩) fun _ => rfl

def CannotExecuteMessageEventV2Metadata.borsh : Codec CannotExecuteMessageEventV2Metadata :=
  (Borsh.string.option.pair (optionUtc.pair TaskItemId.borsh)).via
    (fun m => (m.fromAddress, m.timestamp, m.taskItemId))
    (fun (fromAddress, timestamp, taskItemId) => ⟨fromAddress, timestamp, taskItemId⟩) fun _ => rfl

def SignersRotatedMetadata.borsh : Codec SignersRotatedMetadata :=
  (Borsh.bytes.pair Borsh.u64).via (fun m => (m.signerHash, m.epoch))
    (fun (signerHash, epoch) => ⟨signerHash, epoch⟩) fun _ => rfl

def GasCreditEvent.borsh : Codec GasCreditEvent :=
  ((EventBase.borsh Borsh.unit).pair (TxEvent.borsh.pair (Borsh.string.pair Token.borsh))).via
    (fun e => (e.base, e.messageId, e.refundAddress, e.payment))
    (fun (base, messageId, refundAddress, payment) => ⟨base, messageId, refundAddress, payment⟩)
    fun _ => rfl

def GasRefundedEvent.borsh : Codec GasRefundedEvent :=
  ((EventBase.borsh Borsh.unit).pair
      (TxEvent.borsh.pair (Borsh.string.pair (Token.borsh.pair Token.borsh)))).via
    (fun e => (e.base, e.messageId, e.recipientAddress, e.refundedAmount, e.cost))
    (fun (base, messageId, recipientAddress, refundedAmount, cost) =>
      ⟨base, messageId, recipientAddress, refundedAmount, cost⟩) fun _ => rfl

def CallEvent.borsh : Codec CallEvent :=
  ((EventBase.borsh CallEventMetadata.borsh).pair
      (GatewayV2Message.borsh.pair (Borsh.string.pair Borsh.bytes))).via
    (fun e => (e.base, e.message, e.destinationChain, e.payload))
    (fun (base, message, destinationChain, payload) => ⟨base, message, destinationChain, payload⟩)
    fun _ => rfl

def MessageApprovedEvent.borsh : Codec MessageApprovedEvent :=
  ((EventBase.borsh MessageApprovedEventMetadata.borsh).pair
      (GatewayV2Message.borsh.pair Token.borsh)).via
    (fun e => (e.base, e.message, e.cost)) (fun (base, message, cost) => ⟨base, message, cost⟩)
    fun _ => rfl

def SignersRotatedEvent.borsh : Codec SignersRotatedEvent :=
  ((EventBase.borsh SignersRotatedMetadata.borsh).pair Token.borsh).via (fun e => (e.base, e.cost))
    (fun (base, cost) => ⟨base, cost⟩) fun _ => rfl

def MessageExecutedEvent.borsh : Codec MessageExecutedEvent :=
  ((EventBase.borsh MessageExecutedEventMetadata.borsh).pair
      (TxEvent.borsh.pair (Borsh.string.pair (MessageExecutionStatus.borsh.pair Token.borsh)))).via
    (fun e => (e.base, e.messageId, e.sourceChain, e.status, e.cost))
    (fun (base, messageId, sourceChain, status, cost) =>
      ⟨base, messageId, sourceChain, status, cost⟩) fun _ => rfl

def CannotExecuteMessageEventV2.borsh : Codec CannotExecuteMessageEventV2 :=
  ((EventBase.borsh CannotExecuteMessageEventV2Metadata.borsh).pair
      (TxEvent.borsh.pair
        (Borsh.string.pair (CannotExecuteMessageReason.borsh.pair Borsh.string)))).via
    (fun e => (e.base, e.messageId, e.sourceChain, e.reason, e.details))
    (fun (base, messageId, sourceChain, reason, details) =>
      ⟨base, messageId, sourceChain, reason, details⟩) fun _ => rfl

def Event.borsh : Codec Event where
  serialize
    | .gasCredit event => 0 :: GasCreditEvent.borsh.serialize event
    | .gasRefunded event => 1 :: GasRefundedEvent.borsh.serialize event
    | .call event => 2 :: CallEvent.borsh.serialize event
    | .messageApproved event => 3 :: MessageApprovedEvent.borsh.serialize event
    | .messageExecuted event => 4 :: MessageExecutedEvent.borsh.serialize event
    | .cannotExecuteMessageV2 event => 5 :: CannotExecuteMessageEventV2.borsh.serialize event
    | .signersRotated event => 6 :: SignersRotatedEvent.borsh.serialize event
  deserialize
    | 0 :: bytes => (GasCreditEvent.borsh.deserialize bytes).map (Prod.map .gasCredit id)
    | 1 :: bytes => (GasRefundedEvent.borsh.deserialize bytes).map (Prod.map .gasRefunded id)
    | 2 :: bytes => (CallEvent.borsh.deserialize bytes).map (Prod.map .call id)
    | 3 :: bytes =>
      (MessageApprovedEvent.borsh.deserialize bytes).map (Prod.map .messageApproved id)
    | 4 :: bytes =>
      (MessageExecutedEvent.borsh.deserialize bytes).map (Prod.map .messageExecuted id)
    | 5 :: bytes =>
      (CannotExecuteMessageEventV2.borsh.deserialize bytes).map (Prod.map .cannotExecuteMessageV2 id)
    | 6 :: bytes => (SignersRotatedEvent.borsh.deserialize bytes).map (Prod.map .signersRotated id)
    | _ => none
  Fits
    | .gasCredit event => GasCreditEvent.borsh.Fits event
    | .gasRefunded event => GasRefundedEvent.borsh.Fits event
    | .call event => CallEvent.borsh.Fits event
    | .messageApproved event => MessageApprovedEvent.borsh.Fits event
    | .messageExecuted event => MessageExecutedEvent.borsh.Fits event
    | .cannotExecuteMessageV2 event => CannotExecuteMessageEventV2.borsh.Fits event
    | .signersRotated event => SignersRotatedEvent.borsh.Fits event
  deserialize_serialize event h rest := by
    cases event <;> simp [Codec.deserialize_serialize _ _ h]

/-! ### Tasks -/

def VerifyTask.borsh : Codec VerifyTask :=
  (GatewayV2Message.borsh.pair Borsh.bytes).via (fun t => (t.message, t.payload))
    (fun (message, payload) => ⟨message, payload⟩) fun _ => rfl

def ConstructProofTask.borsh : Codec ConstructProofTask :=
  (GatewayV2Message.borsh.pair Borsh.bytes).via (fun t => (t.message, t.payload))
    (fun (message, payload) => ⟨message, payload⟩) fun _ => rfl

def GatewayTransactionTask.borsh : Codec GatewayTransactionTask :=
  Borsh.bytes.via GatewayTransactionTask.executeData GatewayTransactionTask.mk fun _ => rfl

def ExecuteTask.borsh : Codec ExecuteTask :=
  (GatewayV2Message.borsh.pair (Borsh.bytes.pair Token.borsh)).via
    (fun t => (t.message, t.payload, t.availableGasBalance))
    (fun (message, payload, availableGasBalance) => ⟨message, payload, availableGasBalance⟩)
    fun _ => rfl

def RefundTask.borsh : Codec RefundTask :=
  (GatewayV2Message.borsh.pair (Borsh.string.pair Token.borsh)).via
    (fun t => (t.message, t.refundRecipientAddress, t.remainingGasBalance))
    (fun (message, refundRecipientAddress, remainingGasBalance) =>
      ⟨message, refundRecipientAddress, remainingGasBalance⟩) fun _ => rfl

def Task.borsh : Codec Task where
  serialize
    | .constructProof task => 0 :: ConstructProofTask.borsh.serialize task
    | .verify task => 1 :: VerifyTask.borsh.serialize task
    | .gatewayTx task => 2 :: GatewayTransactionTask.borsh.serialize task
    | .execute task => 3 :: ExecuteTask.borsh.serialize task
    | .refund task => 4 :: RefundTask.borsh.serialize task
  deserialize
    | 0 :: bytes => (ConstructProofTask.borsh.deserialize bytes).map (Prod.map .constructProof id)
    | 1 :: bytes => (VerifyTask.borsh.deserialize bytes).map (Prod.map .verify id)
    | 2 :: bytes => (GatewayTransactionTask.borsh.deserialize bytes).map (Prod.map .gatewayTx id)
    | 3 :: bytes => (ExecuteTask.borsh.deserialize bytes).map (Prod.map .execute id)
    | 4 :: bytes => (RefundTask.borsh.deserialize bytes).map (Prod.map .refund id)
    | _ => none
  Fits
    | .constructProof task => ConstructProofTask.borsh.Fits task
    | .verify task => VerifyTask.borsh.Fits task
    | .gatewayTx task => GatewayTransactionTask.borsh.Fits task
    | .execute task => ExecuteTask.borsh.Fits task
    | .refund task => RefundTask.borsh.Fits task
  deserialize_serialize task h rest := by
    cases task <;> simp [Codec.deserialize_serialize _ _ h]

def TaskItem.borsh : Codec TaskItem :=
  (TaskItemId.borsh.pair (utc.pair Task.borsh)).via (fun t => (t.id, t.timestamp, t.task))
    (fun (id, timestamp, task) => ⟨id, timestamp, task⟩) fun _ => rfl

end RelayerCore
