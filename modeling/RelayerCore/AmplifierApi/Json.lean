import RelayerCore.AmplifierApi.Types
import RelayerCore.Lib.Serde

/-!
# The JSON encoding of events, tasks and results (`amplifier-api/src/types.rs`)

Events and results carry the name of their variant in an entry of their own object, a task has its
variant and content in two entries beside the others of its item; the base of an event is flattened
into the event, and the metadata of a kind of event into the common metadata.

The string forms of timestamps, byte strings and UUIDs come from other crates and are parameters.
An absent optional field is not written.
-/

namespace RelayerCore

open Serde

/-! ### Scalars -/

/-- The conversions between scalars and strings. -/
structure Scalars where
  formatRfc3339 : DateTime → String
  parseRfc3339 : String → Option DateTime
  base64Encode : List UInt8 → String
  base64Decode : String → Option (List UInt8)
  formatUuid : BitVec 128 → String
  parseUuid : String → Option (BitVec 128)

/-- RFC 3339 has the years from 0 to 9999, and leap seconds. -/
structure DateTime.Rfc3339 (t : DateTime) : Prop where
  lower : -62167219200 ≤ t.secs
  upper : t.secs ≤ 253402300799
  nanos : t.nanos < 10 ^ 9 ∨ t.nanos < 2 * 10 ^ 9 ∧ t.secs % 60 = 59

/-- What is written is read back. -/
structure Scalars.Documented (sc : Scalars) : Prop where
  rfc3339 : ∀ t : DateTime, t.Rfc3339 → sc.parseRfc3339 (sc.formatRfc3339 t) = some t
  base64 : ∀ bytes, sc.base64Decode (sc.base64Encode bytes) = some bytes
  uuid : ∀ uuid, sc.parseUuid (sc.formatUuid uuid) = some uuid

variable (sc : Scalars)

def DateTime.json : Format DateTime := text sc.formatRfc3339 sc.parseRfc3339

/-- `serde_utils::base64_encode` and `serde_utils::base64_decode`. -/
def base64 : Format (List UInt8) := text sc.base64Encode sc.base64Decode

def BigInt.json : Format BigInt := text BigInt.toString BigInt.parse

def TxId.json : Format TxId := text TxId.val fun s => some ⟨s⟩

def TokenId.json : Format TokenId := text TokenId.val fun s => some ⟨s⟩

def TxEvent.json : Format TxEvent := text TxEvent.val fun s => some ⟨s⟩

def CommandId.json : Format CommandId := text CommandId.val fun s => some ⟨s⟩

def TaskItemId.json : Format TaskItemId :=
  text (fun id => sc.formatUuid id.uuid) fun s => (sc.parseUuid s).map TaskItemId.mk

def CannotExecuteMessageReason.json : Format CannotExecuteMessageReason :=
  text (fun | .insufficientGas => "INSUFFICIENT_GAS" | .error => "ERROR")
    (fun | "INSUFFICIENT_GAS" => some .insufficientGas | "ERROR" => some .error | _ => none)

def MessageExecutionStatus.json : Format MessageExecutionStatus :=
  text (fun | .successful => "SUCCESSFUL" | .reverted => "REVERTED")
    (fun | "SUCCESSFUL" => some .successful | "REVERTED" => some .reverted | _ => none)

/-! ### Structures -/

def Token.fields : Fields Token :=
  ((Fields.optional "tokenID" TokenId.json).pair (.required "amount" BigInt.json)).via
    (fun t => (t.tokenId, t.amount)) (fun (tokenId, amount) => ⟨tokenId, amount⟩)

def GatewayV2Message.fields : Fields GatewayV2Message :=
  ((Fields.required "messageID" TxEvent.json).pair
    ((Fields.required "sourceChain" string).pair
      ((Fields.required "sourceAddress" string).pair
        ((Fields.required "destinationAddress" string).pair
          (.required "payloadHash" (base64 sc)))))).via
    (fun m => (m.messageId, m.sourceChain, m.sourceAddress, m.destinationAddress, m.payloadHash))
    (fun (messageId, sourceChain, sourceAddress, destinationAddress, payloadHash) =>
      ⟨messageId, sourceChain, sourceAddress, destinationAddress, payloadHash⟩)

/-- The named fields of `EventMetadata`. -/
def EventMetadata.named :
    Fields (Option TxId × Option DateTime × Option Address × Option Bool) :=
  (Fields.optional "txID" TxId.json).pair
    ((Fields.optional "timestamp" (DateTime.json sc)).pair
      ((Fields.optional "fromAddress" string).pair (.optional "finalized" bool)))

section Base

variable {T : Type}

/-- The named fields, and then those of `extra`. -/
def EventMetadata.fields (extra : Fields T) : Fields (EventMetadata T) :=
  ((EventMetadata.named sc).flattenLast extra).via
    (fun m => ((m.txId, m.timestamp, m.fromAddress, m.finalized), m.extra))
    (fun ((txId, timestamp, fromAddress, finalized), extra) =>
      ⟨txId, timestamp, fromAddress, finalized, extra⟩)

def EventBase.fields (extra : Fields T) : Fields (EventBase T) :=
  ((Fields.required "eventID" TxEvent.json).pair
    (.optional "meta" (EventMetadata.fields sc extra).object)).via
    (fun b => (b.eventId, b.metadata)) (fun (eventId, metadata) => ⟨eventId, metadata⟩)

end Base

def CallEventMetadata.fields : Fields CallEventMetadata :=
  (Fields.optional "parentMessageID" TxEvent.json).via CallEventMetadata.parentMessageId
    CallEventMetadata.mk

def MessageApprovedEventMetadata.fields : Fields MessageApprovedEventMetadata :=
  (Fields.optional "commandID" CommandId.json).via MessageApprovedEventMetadata.commandId
    MessageApprovedEventMetadata.mk

def MessageExecutedEventMetadata.fields : Fields MessageExecutedEventMetadata :=
  ((Fields.optional "commandID" CommandId.json).pair
    (.optional "childMessageIDs" (array TxEvent.json))).via
    (fun m => (m.commandId, m.childMessageIds))
    (fun (commandId, childMessageIds) => ⟨commandId, childMessageIds⟩)

def CannotExecuteMessageEventV2Metadata.fields : Fields CannotExecuteMessageEventV2Metadata :=
  ((Fields.optional "fromAddress" string).pair
    ((Fields.optional "timestamp" (DateTime.json sc)).pair
      (.required "taskItemID" (TaskItemId.json sc)))).via
    (fun m => (m.fromAddress, m.timestamp, m.taskItemId))
    (fun (fromAddress, timestamp, taskItemId) => ⟨fromAddress, timestamp, taskItemId⟩)

def SignersRotatedMetadata.fields : Fields SignersRotatedMetadata :=
  ((Fields.required "signerHash" (base64 sc)).pair (.required "epoch" u64)).via
    (fun m => (m.signerHash, m.epoch)) (fun (signerHash, epoch) => ⟨signerHash, epoch⟩)

/-! ### Events -/

def GasCreditEvent.fields : Fields GasCreditEvent :=
  ((EventBase.fields sc Fields.unit).flattenFirst
    ((Fields.required "messageID" TxEvent.json).pair
      ((Fields.required "refundAddress" string).pair
        (.required "payment" Token.fields.object)))).via
    (fun e => (e.base, e.messageId, e.refundAddress, e.payment))
    (fun (base, messageId, refundAddress, payment) => ⟨base, messageId, refundAddress, payment⟩)

def GasRefundedEvent.fields : Fields GasRefundedEvent :=
  ((EventBase.fields sc Fields.unit).flattenFirst
    ((Fields.required "messageID" TxEvent.json).pair
      ((Fields.required "recipientAddress" string).pair
        ((Fields.required "refundedAmount" Token.fields.object).pair
          (.required "cost" Token.fields.object))))).via
    (fun e => (e.base, e.messageId, e.recipientAddress, e.refundedAmount, e.cost))
    (fun (base, messageId, recipientAddress, refundedAmount, cost) =>
      ⟨base, messageId, recipientAddress, refundedAmount, cost⟩)

def CallEvent.fields : Fields CallEvent :=
  ((EventBase.fields sc CallEventMetadata.fields).flattenFirst
    ((Fields.required "message" (GatewayV2Message.fields sc).object).pair
      ((Fields.required "destinationChain" string).pair (.required "payload" (base64 sc))))).via
    (fun e => (e.base, e.message, e.destinationChain, e.payload))
    (fun (base, message, destinationChain, payload) => ⟨base, message, destinationChain, payload⟩)

def MessageApprovedEvent.fields : Fields MessageApprovedEvent :=
  ((EventBase.fields sc MessageApprovedEventMetadata.fields).flattenFirst
    ((Fields.required "message" (GatewayV2Message.fields sc).object).pair
      (.required "cost" Token.fields.object))).via
    (fun e => (e.base, e.message, e.cost)) (fun (base, message, cost) => ⟨base, message, cost⟩)

def SignersRotatedEvent.fields : Fields SignersRotatedEvent :=
  ((EventBase.fields sc (SignersRotatedMetadata.fields sc)).flattenFirst
    (.required "cost" Token.fields.object)).via
    (fun e => (e.base, e.cost)) (fun (base, cost) => ⟨base, cost⟩)

def MessageExecutedEvent.fields : Fields MessageExecutedEvent :=
  ((EventBase.fields sc MessageExecutedEventMetadata.fields).flattenFirst
    ((Fields.required "messageID" TxEvent.json).pair
      ((Fields.required "sourceChain" string).pair
        ((Fields.required "status" MessageExecutionStatus.json).pair
          (.required "cost" Token.fields.object))))).via
    (fun e => (e.base, e.messageId, e.sourceChain, e.status, e.cost))
    (fun (base, messageId, sourceChain, status, cost) =>
      ⟨base, messageId, sourceChain, status, cost⟩)

def CannotExecuteMessageEventV2.fields : Fields CannotExecuteMessageEventV2 :=
  ((EventBase.fields sc (CannotExecuteMessageEventV2Metadata.fields sc)).flattenFirst
    ((Fields.required "messageID" TxEvent.json).pair
      ((Fields.required "sourceChain" string).pair
        ((Fields.required "reason" CannotExecuteMessageReason.json).pair
          (.required "details" string))))).via
    (fun e => (e.base, e.messageId, e.sourceChain, e.reason, e.details))
    (fun (base, messageId, sourceChain, reason, details) =>
      ⟨base, messageId, sourceChain, reason, details⟩)

/-- The name of a variant is in the entry `type`. -/
def Event.json : Format Event where
  serialize
    | .gasCredit event => tagged "type" "GAS_CREDIT" ((GasCreditEvent.fields sc).entries event)
    | .gasRefunded event =>
      tagged "type" "GAS_REFUNDED" ((GasRefundedEvent.fields sc).entries event)
    | .call event => tagged "type" "CALL" ((CallEvent.fields sc).entries event)
    | .messageApproved event =>
      tagged "type" "MESSAGE_APPROVED" ((MessageApprovedEvent.fields sc).entries event)
    | .messageExecuted event =>
      tagged "type" "MESSAGE_EXECUTED" ((MessageExecutedEvent.fields sc).entries event)
    | .cannotExecuteMessageV2 event =>
      tagged "type" "CANNOT_EXECUTE_MESSAGE/V2"
        ((CannotExecuteMessageEventV2.fields sc).entries event)
    | .signersRotated event =>
      tagged "type" "SIGNERS_ROTATED" ((SignersRotatedEvent.fields sc).entries event)
  deserialize value := do
    match ← untag "type" value with
    | ("GAS_CREDIT", es) => ((GasCreditEvent.fields sc).read es).map .gasCredit
    | ("GAS_REFUNDED", es) => ((GasRefundedEvent.fields sc).read es).map .gasRefunded
    | ("CALL", es) => ((CallEvent.fields sc).read es).map .call
    | ("MESSAGE_APPROVED", es) => ((MessageApprovedEvent.fields sc).read es).map .messageApproved
    | ("MESSAGE_EXECUTED", es) => ((MessageExecutedEvent.fields sc).read es).map .messageExecuted
    | ("CANNOT_EXECUTE_MESSAGE/V2", es) =>
      ((CannotExecuteMessageEventV2.fields sc).read es).map .cannotExecuteMessageV2
    | ("SIGNERS_ROTATED", es) => ((SignersRotatedEvent.fields sc).read es).map .signersRotated
    | _ => none

/-- The timestamps in the metadata of an event. -/
def EventBase.timestamps {T : Type} (extra : T → List DateTime) (b : EventBase T) : List DateTime :=
  match b.metadata with
  | some m => m.timestamp.toList ++ extra m.extra
  | none => []

def Event.timestamps : Event → List DateTime
  | .gasCredit event => event.base.timestamps fun _ => []
  | .gasRefunded event => event.base.timestamps fun _ => []
  | .call event => event.base.timestamps fun _ => []
  | .messageApproved event => event.base.timestamps fun _ => []
  | .messageExecuted event => event.base.timestamps fun _ => []
  | .cannotExecuteMessageV2 event => event.base.timestamps fun m => m.timestamp.toList
  | .signersRotated event => event.base.timestamps fun _ => []

/-! ### Results -/

def PublishEventResultItemBase.fields : Fields PublishEventResultItemBase :=
  (Fields.required "index" u64).via PublishEventResultItemBase.index PublishEventResultItemBase.mk

def PublishEventAcceptedResult.fields : Fields PublishEventAcceptedResult :=
  (PublishEventResultItemBase.fields.flattenFirst Fields.unit).via (fun r => (r.base, ()))
    (fun (base, _) => ⟨base⟩)

def PublishEventErrorResult.fields : Fields PublishEventErrorResult :=
  (PublishEventResultItemBase.fields.flattenFirst
    ((Fields.required "error" string).pair (.required "retriable" bool))).via
    (fun r => (r.base, r.error, r.retriable))
    (fun (base, error, retriable) => ⟨base, error, retriable⟩)

def PublishEventResultItem.json : Format PublishEventResultItem where
  serialize
    | .accepted result =>
      tagged "status" "ACCEPTED" (PublishEventAcceptedResult.fields.entries result)
    | .error result => tagged "status" "ERROR" (PublishEventErrorResult.fields.entries result)
  deserialize value := do
    match ← untag "status" value with
    | ("ACCEPTED", es) => (PublishEventAcceptedResult.fields.read es).map .accepted
    | ("ERROR", es) => (PublishEventErrorResult.fields.read es).map .error
    | _ => none

/-! ### Tasks -/

def VerifyTask.fields : Fields VerifyTask :=
  ((Fields.required "message" (GatewayV2Message.fields sc).object).pair
    (.required "payload" (base64 sc))).via
    (fun t => (t.message, t.payload)) (fun (message, payload) => ⟨message, payload⟩)

def ConstructProofTask.fields : Fields ConstructProofTask :=
  ((Fields.required "message" (GatewayV2Message.fields sc).object).pair
    (.required "payload" (base64 sc))).via
    (fun t => (t.message, t.payload)) (fun (message, payload) => ⟨message, payload⟩)

def GatewayTransactionTask.fields : Fields GatewayTransactionTask :=
  (Fields.required "executeData" (base64 sc)).via GatewayTransactionTask.executeData
    GatewayTransactionTask.mk

def ExecuteTask.fields : Fields ExecuteTask :=
  ((Fields.required "message" (GatewayV2Message.fields sc).object).pair
    ((Fields.required "payload" (base64 sc)).pair
      (.required "availableGasBalance" Token.fields.object))).via
    (fun t => (t.message, t.payload, t.availableGasBalance))
    (fun (message, payload, availableGasBalance) => ⟨message, payload, availableGasBalance⟩)

def RefundTask.fields : Fields RefundTask :=
  ((Fields.required "message" (GatewayV2Message.fields sc).object).pair
    ((Fields.required "refundRecipientAddress" string).pair
      (.required "remainingGasBalance" Token.fields.object))).via
    (fun t => (t.message, t.refundRecipientAddress, t.remainingGasBalance))
    (fun (message, refundRecipientAddress, remainingGasBalance) =>
      ⟨message, refundRecipientAddress, remainingGasBalance⟩)

/-- The name of a variant is in the entry `type`, its content in the entry `task`. -/
def Task.fields : Fields Task where
  names := ["type", "task"]
  entries
    | .constructProof task =>
      adjacent "type" "task" "CONSTRUCT_PROOF"
        ((ConstructProofTask.fields sc).object.serialize task)
    | .verify task =>
      adjacent "type" "task" "VERIFY" ((VerifyTask.fields sc).object.serialize task)
    | .gatewayTx task =>
      adjacent "type" "task" "GATEWAY_TX" ((GatewayTransactionTask.fields sc).object.serialize task)
    | .execute task =>
      adjacent "type" "task" "EXECUTE" ((ExecuteTask.fields sc).object.serialize task)
    | .refund task =>
      adjacent "type" "task" "REFUND" ((RefundTask.fields sc).object.serialize task)
  read es := do
    match ← unadjacent "type" "task" es with
    | ("CONSTRUCT_PROOF", task) =>
      ((ConstructProofTask.fields sc).object.deserialize task).map .constructProof
    | ("VERIFY", task) => ((VerifyTask.fields sc).object.deserialize task).map .verify
    | ("GATEWAY_TX", task) =>
      ((GatewayTransactionTask.fields sc).object.deserialize task).map .gatewayTx
    | ("EXECUTE", task) => ((ExecuteTask.fields sc).object.deserialize task).map .execute
    | ("REFUND", task) => ((RefundTask.fields sc).object.deserialize task).map .refund
    | _ => none

def TaskItem.json : Format TaskItem :=
  ((((Fields.required "id" (TaskItemId.json sc)).pair
    (.required "timestamp" (DateTime.json sc))).flattenLast (Task.fields sc)).via
    (fun t => ((t.id, t.timestamp), t.task))
    (fun ((id, timestamp), task) => ⟨id, timestamp, task⟩)).object

end RelayerCore
