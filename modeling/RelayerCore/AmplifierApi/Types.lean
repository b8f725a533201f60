import Mathlib.Tactic
import RelayerCore.Lib.Decimal

/-!
# The types of the Amplifier API (`amplifier-api/src/types.rs`)

The records and enumerations exchanged with the API, with the source's field names.  A `Vec<u8>`
is a list of bytes, a UUID its 128 bits, `BigInt` an integer in the range of `i128`, and a
`DateTime<Utc>` the whole seconds since the epoch with the nanoseconds past them.
-/

namespace RelayerCore

/-! ### Scalars -/

/-- `chrono::DateTime<Utc>`: seconds since the epoch and nanoseconds within the second. -/
structure DateTime where
  secs : ℤ
  nanos : ℕ
  deriving DecidableEq

/-- Timestamps are ordered by seconds, then by nanoseconds. -/
instance : LinearOrder DateTime :=
  LinearOrder.lift' (fun t : DateTime => toLex (t.secs, t.nanos)) fun a b h => by
    cases a
    cases b
    simpa using h

/-- `BigInt`: a token amount, an integer in the range of `i128`. -/
structure BigInt where
  inner : ℤ
  lower : -2 ^ 127 ≤ inner
  upper : inner < 2 ^ 127
  deriving DecidableEq

/-- `to_string` of the inner integer. -/
def BigInt.toString (value : BigInt) : String := value.inner.repr

/-- `parse::<i128>`. -/
def BigInt.parse (s : String) : Option BigInt := do
  let k ← Decimal.parse s
  if h : -2 ^ 127 ≤ k ∧ k < 2 ^ 127 then some ⟨k, h.1, h.2⟩ else none

theorem BigInt.parse_toString (value : BigInt) : BigInt.parse value.toString = some value := by
  unfold BigInt.parse BigInt.toString
  rw [Decimal.parse_repr]
  exact dif_pos ⟨value.lower, value.upper⟩

/-- `Address`: represents an address as a string. -/
abbrev Address := String

/-! ### Identifiers -/

/-- `TxId`: a transaction id. -/
structure TxId where
  val : String
  deriving DecidableEq

/-- `TokenId`: a token id. -/
structure TokenId where
  val : String
  deriving DecidableEq

/-- `TxEvent`: an id in the format `TxHash-LogIndex`. -/
structure TxEvent where
  val : String
  deriving DecidableEq

/-- `MessageId`: the id of a cross-chain message. -/
abbrev MessageId := TxEvent

/-- `EventId`: the id of an event. -/
abbrev EventId := TxEvent

/-- `TaskItemId`: the UUID of a task. -/
structure TaskItemId where
  uuid : BitVec 128
  deriving DecidableEq

/-- `CommandId`: a command id. -/
structure CommandId where
  val : String
  deriving DecidableEq

/-- `RequestId`: a request id. -/
structure RequestId where
  val : String
  deriving DecidableEq

/-! ### Events -/

inductive CannotExecuteMessageReason
  | insufficientGas
  | error
  deriving DecidableEq

inductive MessageExecutionStatus
  | successful
  | reverted
  deriving DecidableEq

/-- Metadata of an event, with the fields that depend on the core event in `extra`. -/
structure EventMetadata (T : Type) where
  txId : Option TxId
  timestamp : Option DateTime
  fromAddress : Option Address
  finalized : Option Bool
  extra : T
  deriving DecidableEq

structure CallEventMetadata where
  parentMessageId : Option MessageId
  deriving DecidableEq

structure MessageApprovedEventMetadata where
  commandId : Option CommandId
  deriving DecidableEq

structure MessageExecutedEventMetadata where
  commandId : Option CommandId
  childMessageIds : Option (List MessageId)
  deriving DecidableEq

structure CannotExecuteMessageEventV2Metadata where
  fromAddress : Option Address
  timestamp : Option DateTime
  taskItemId : TaskItemId
  deriving DecidableEq

/-- A token amount; the native token when `tokenId` is left blank. -/
structure Token where
  tokenId : Option TokenId
  amount : BigInt
  deriving DecidableEq

/-- A cross-chain message. -/
structure GatewayV2Message where
  messageId : MessageId
  sourceChain : String
  sourceAddress : Address
  destinationAddress : Address
  payloadHash : List UInt8
  deriving DecidableEq

/-- The fields every event has. -/
structure EventBase (T : Type) where
  eventId : EventId
  metadata : Option (EventMetadata T)
  deriving DecidableEq

structure GasCreditEvent where
  base : EventBase Unit
  messageId : MessageId
  refundAddress : Address
  payment : Token
  deriving DecidableEq

structure GasRefundedEvent where
  base : EventBase Unit
  messageId : MessageId
  recipientAddress : Address
  refundedAmount : Token
  cost : Token
  deriving DecidableEq

structure CallEvent where
  base : EventBase CallEventMetadata
  message : GatewayV2Message
  destinationChain : String
  payload : List UInt8
  deriving DecidableEq

structure MessageApprovedEvent where
  base : EventBase MessageApprovedEventMetadata
  message : GatewayV2Message
  cost : Token
  deriving DecidableEq

structure SignersRotatedMetadata where
  signerHash : List UInt8
  epoch : UInt64
  deriving DecidableEq

structure SignersRotatedEvent where
  base : EventBase SignersRotatedMetadata
  cost : Token
  deriving DecidableEq

structure MessageExecutedEvent where
  base : EventBase MessageExecutedEventMetadata
  messageId : MessageId
  sourceChain : String
  status : MessageExecutionStatus
  cost : Token
  deriving DecidableEq

structure CannotExecuteMessageEventV2 where
  base : EventBase CannotExecuteMessageEventV2Metadata
  messageId : MessageId
  sourceChain : String
  reason : CannotExecuteMessageReason
  details : String
  deriving DecidableEq

/-- An event of the edge chain, to be posted to the API. -/
inductive Event
  | gasCredit (event : GasCreditEvent)
  | gasRefunded (event : GasRefundedEvent)
  | call (event : CallEvent)
  | messageApproved (event : MessageApprovedEvent)
  | messageExecuted (event : MessageExecutedEvent)
  | cannotExecuteMessageV2 (event : CannotExecuteMessageEventV2)
  | signersRotated (event : SignersRotatedEvent)
  deriving DecidableEq

/-- The payload of a request that posts events. -/
structure PublishEventsRequest where
  events : List Event
  deriving DecidableEq

/-! ### Results of posting events -/

/-- `index` is the position of the event in the request. -/
structure PublishEventResultItemBase where
  index : UInt64
  deriving DecidableEq

structure PublishEventAcceptedResult where
  base : PublishEventResultItemBase
  deriving DecidableEq

/-- `retriable`: whether publishing the event can be tried again. -/
structure PublishEventErrorResult where
  base : PublishEventResultItemBase
  error : String
  retriable : Bool
  deriving DecidableEq

inductive PublishEventResultItem
  | accepted (result : PublishEventAcceptedResult)
  | error (result : PublishEventErrorResult)
  deriving DecidableEq

structure PublishEventsResult where
  results : List PublishEventResultItem
  deriving DecidableEq

/-- The body of an answer whose status is not a success. -/
structure ErrorResponse where
  error : String
  requestId : Option RequestId
  deriving DecidableEq

/-! ### Tasks -/

structure VerifyTask where
  message : GatewayV2Message
  payload : List UInt8
  deriving DecidableEq

structure ConstructProofTask where
  message : GatewayV2Message
  payload : List UInt8
  deriving DecidableEq

structure GatewayTransactionTask where
  executeData : List UInt8
  deriving DecidableEq

structure ExecuteTask where
  message : GatewayV2Message
  payload : List UInt8
  availableGasBalance : Token
  deriving DecidableEq

structure RefundTask where
  message : GatewayV2Message
  refundRecipientAddress : Address
  remainingGasBalance : Token
  deriving DecidableEq

inductive Task
  | constructProof (task : ConstructProofTask)
  | verify (task : VerifyTask)
  | gatewayTx (task : GatewayTransactionTask)
  | execute (task : ExecuteTask)
  | refund (task : RefundTask)
  deriving DecidableEq

/-- A task of the API, to be carried out on the edge chain. -/
structure TaskItem where
  id : TaskItemId
  timestamp : DateTime
  task : Task
  deriving DecidableEq

/-- The answer to a request for tasks. -/
structure GetTasksResult where
  tasks : List TaskItem
  deriving DecidableEq

end RelayerCore
