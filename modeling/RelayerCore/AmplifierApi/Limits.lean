import RelayerCore.AmplifierApi.Borsh
import RelayerCore.AmplifierApi.Json

/-!
# Which events and tasks have a borsh encoding

The encoding of a value has room for it exactly when all its strings, byte strings and lists are
shorter than `2 ^ 32`, and `chrono` knows its timestamps; amounts, flags and numbers always fit.
-/

namespace RelayerCore

open Codec

/-! ### Lengths -/

def TxId.lengths (id : TxId) : List ℕ := [id.val.utf8ByteSize]

def TokenId.lengths (id : TokenId) : List ℕ := [id.val.utf8ByteSize]

def TxEvent.lengths (id : TxEvent) : List ℕ := [id.val.utf8ByteSize]

def CommandId.lengths (id : CommandId) : List ℕ := [id.val.utf8ByteSize]

def Address.lengths (address : Address) : List ℕ := [address.utf8ByteSize]

def Token.lengths (token : Token) : List ℕ := token.tokenId.toList.flatMap TokenId.lengths

def GatewayV2Message.lengths (m : GatewayV2Message) : List ℕ :=
  [m.messageId.val.utf8ByteSize, m.sourceChain.utf8ByteSize, m.sourceAddress.utf8ByteSize,
    m.destinationAddress.utf8ByteSize, m.payloadHash.length]

section Base

variable {T : Type}

def EventMetadata.lengths (extra : T → List ℕ) (m : EventMetadata T) : List ℕ :=
  m.txId.toList.flatMap TxId.lengths ++ m.fromAddress.toList.flatMap Address.lengths ++
    extra m.extra

def EventBase.lengths (extra : T → List ℕ) (b : EventBase T) : List ℕ :=
  b.eventId.lengths ++ b.metadata.toList.flatMap (EventMetadata.lengths extra)

end Base

def CallEventMetadata.lengths (m : CallEventMetadata) : List ℕ :=
  m.parentMessageId.toList.flatMap TxEvent.lengths

def MessageApprovedEventMetadata.lengths (m : MessageApprovedEventMetadata) : List ℕ :=
  m.commandId.toList.flatMap CommandId.lengths

def MessageExecutedEventMetadata.lengths (m : MessageExecutedEventMetadata) : List ℕ :=
  m.commandId.toList.flatMap CommandId.lengths ++
    m.childMessageIds.toList.flatMap fun ids => ids.length :: ids.flatMap TxEvent.lengths

def CannotExecuteMessageEventV2Metadata.lengths (m : CannotExecuteMessageEventV2Metadata) :
    List ℕ := m.fromAddress.toList.flatMap Address.lengths

def SignersRotatedMetadata.lengths (m : SignersRotatedMetadata) : List ℕ := [m.signerHash.length]

def Event.lengths : Event → List ℕ
  | .gasCredit event =>
    event.base.lengths (fun _ => []) ++ event.messageId.lengths ++ event.refundAddress.lengths ++
      event.payment.lengths
  | .gasRefunded event =>
    event.base.lengths (fun _ => []) ++ event.messageId.lengths ++
      event.recipientAddress.lengths ++ event.refundedAmount.lengths ++ event.cost.lengths
  | .call event =>
    event.base.lengths CallEventMetadata.lengths ++ event.message.lengths ++
      [event.destinationChain.utf8ByteSize, event.payload.length]
  | .messageApproved event =>
    event.base.lengths MessageApprovedEventMetadata.lengths ++ event.message.lengths ++
      event.cost.lengths
  | .messageExecuted event =>
    event.base.lengths MessageExecutedEventMetadata.lengths ++ event.messageId.lengths ++
      [event.sourceChain.utf8ByteSize] ++ event.cost.lengths
  | .cannotExecuteMessageV2 event =>
    event.base.lengths CannotExecuteMessageEventV2Metadata.lengths ++ event.messageId.lengths ++
      [event.sourceChain.utf8ByteSize, event.details.utf8ByteSize]
  | .signersRotated event =>
    event.base.lengths SignersRotatedMetadata.lengths ++ event.cost.lengths

def Task.lengths : Task → List ℕ
  | .constructProof task => task.message.lengths ++ [task.payload.length]
  | .verify task => task.message.lengths ++ [task.payload.length]
  | .gatewayTx task => [task.executeData.length]
  | .execute task =>
    task.message.lengths ++ [task.payload.length] ++ task.availableGasBalance.lengths
  | .refund task =>
    task.message.lengths ++ task.refundRecipientAddress.lengths ++
      task.remainingGasBalance.lengths

/-! ### What fits -/

/-- No length is too large for its four bytes. -/
def Short (lengths : List ℕ) : Prop := ∀ n ∈ lengths, n < 2 ^ 32

@[simp] theorem short_nil : Short [] := fun _ h => by cases h

@[simp] theorem short_cons {n : ℕ} {lengths : List ℕ} :
    Short (n :: lengths) ↔ n < 2 ^ 32 ∧ Short lengths := List.forall_mem_cons

@[simp] theorem short_append {lengths lengths' : List ℕ} :
    Short (lengths ++ lengths') ↔ Short lengths ∧ Short lengths' := List.forall_mem_append

@[simp] theorem short_flatMap {α : Type} {as : List α} {f : α → List ℕ} :
    Short (as.flatMap f) ↔ ∀ a ∈ as, Short (f a) := List.forall_mem_flatMap

theorem TxId.fits_borsh {id : TxId} : TxId.borsh.Fits id ↔ Short id.lengths := by
  simp [TxId.borsh, TxId.lengths, Borsh.fits_string]

theorem TokenId.fits_borsh {id : TokenId} : TokenId.borsh.Fits id ↔ Short id.lengths := by
  simp [TokenId.borsh, TokenId.lengths, Borsh.fits_string]

theorem TxEvent.fits_borsh {id : TxEvent} : TxEvent.borsh.Fits id ↔ Short id.lengths := by
  simp [TxEvent.borsh, TxEvent.lengths, Borsh.fits_string]

theorem CommandId.fits_borsh {id : CommandId} : CommandId.borsh.Fits id ↔ Short id.lengths := by
  simp [CommandId.borsh, CommandId.lengths, Borsh.fits_string]

theorem Address.fits_borsh {address : Address} :
    Borsh.string.Fits address ↔ Short address.lengths := by
  simp [Address.lengths, Borsh.fits_string]

@[simp] theorem TaskItemId.fits_borsh (id : TaskItemId) : TaskItemId.borsh.Fits id := trivial

theorem Token.fits_borsh {token : Token} : Token.borsh.Fits token ↔ Short token.lengths := by
  simp [Token.borsh, Token.lengths, TokenId.fits_borsh]

theorem GatewayV2Message.fits_borsh {m : GatewayV2Message} :
    GatewayV2Message.borsh.Fits m ↔ Short m.lengths := by
  simp [GatewayV2Message.borsh, GatewayV2Message.lengths, TxEvent.fits_borsh, TxEvent.lengths,
    Borsh.fits_string]

@[simp] theorem CannotExecuteMessageReason.fits_borsh (reason : CannotExecuteMessageReason) :
    CannotExecuteMessageReason.borsh.Fits reason := ⟨trivial, trivial⟩

@[simp] theorem MessageExecutionStatus.fits_borsh (status : MessageExecutionStatus) :
    MessageExecutionStatus.borsh.Fits status := ⟨trivial, trivial⟩

theorem fits_unit {a : Unit} : Borsh.unit.Fits a ↔ Short [] := iff_of_true trivial short_nil

section Base

variable {T : Type} {extra : Codec T} {lengths : T → List ℕ} {timestamps : T → List DateTime}

theorem fits_optionUtc {o : Option DateTime} : optionUtc.Fits o ↔ ∀ t ∈ o, t.Valid := Iff.rfl

/-- The metadata fit if what depends on the event does. -/
theorem EventBase.fits_borsh {b : EventBase T}
    (h : ∀ a, extra.Fits a ↔ Short (lengths a) ∧ ∀ t ∈ timestamps a, t.Valid) :
    (EventBase.borsh extra).Fits b ↔
      Short (b.lengths lengths) ∧ ∀ t ∈ b.timestamps timestamps, t.Valid := by
  cases hm : b.metadata with
  | none =>
    simp [EventBase.borsh, EventBase.lengths, EventBase.timestamps, TxEvent.fits_borsh, hm]
  | some m =>
    simp [EventBase.borsh, EventMetadata.borsh, EventBase.lengths, EventMetadata.lengths,
      EventBase.timestamps, TxEvent.fits_borsh, TxId.fits_borsh, Address.fits_borsh,
      fits_optionUtc, h, hm, or_imp, forall_and]
    tauto

/-- Most kinds of events have no timestamp of their own. -/
theorem EventBase.fits_borsh_of_untimed {b : EventBase T}
    (h : ∀ a, extra.Fits a ↔ Short (lengths a)) :
    (EventBase.borsh extra).Fits b ↔
      Short (b.lengths lengths) ∧ ∀ t ∈ b.timestamps fun _ => [], t.Valid :=
  EventBase.fits_borsh fun a => by simp [h]

end Base

theorem CallEventMetadata.fits_borsh {m : CallEventMetadata} :
    CallEventMetadata.borsh.Fits m ↔ Short m.lengths := by
  simp [CallEventMetadata.borsh, CallEventMetadata.lengths, TxEvent.fits_borsh]

theorem MessageApprovedEventMetadata.fits_borsh {m : MessageApprovedEventMetadata} :
    MessageApprovedEventMetadata.borsh.Fits m ↔ Short m.lengths := by
  simp [MessageApprovedEventMetadata.borsh, MessageApprovedEventMetadata.lengths,
    CommandId.fits_borsh]

theorem MessageExecutedEventMetadata.fits_borsh {m : MessageExecutedEventMetadata} :
    MessageExecutedEventMetadata.borsh.Fits m ↔ Short m.lengths := by
  simp [MessageExecutedEventMetadata.borsh, MessageExecutedEventMetadata.lengths,
    CommandId.fits_borsh, TxEvent.fits_borsh]

theorem CannotExecuteMessageEventV2Metadata.fits_borsh {m : CannotExecuteMessageEventV2Metadata} :
    CannotExecuteMessageEventV2Metadata.borsh.Fits m ↔
      Short m.lengths ∧ ∀ t ∈ m.timestamp.toList, t.Valid := by
  simp [CannotExecuteMessageEventV2Metadata.borsh, CannotExecuteMessageEventV2Metadata.lengths,
    Address.fits_borsh, fits_optionUtc]

theorem SignersRotatedMetadata.fits_borsh {m : SignersRotatedMetadata} :
    SignersRotatedMetadata.borsh.Fits m ↔ Short m.lengths := by
  simp [SignersRotatedMetadata.borsh, SignersRotatedMetadata.lengths]

/-- **An event fits exactly when its lengths do and its timestamps are valid.** -/
theorem Event.fits_borsh_iff (event : Event) : Event.borsh.Fits event ↔
    (∀ n ∈ event.lengths, n < 2 ^ 32) ∧ ∀ t ∈ event.timestamps, t.Valid := by
  show _ ↔ Short event.lengths ∧ _
  cases event with
  | gasCredit event =>
    have hbase := EventBase.fits_borsh_of_untimed (b := event.base) fun _ => fits_unit
    simp [Event.borsh, GasCreditEvent.borsh, Event.lengths, Event.timestamps, hbase,
      TxEvent.fits_borsh, Address.fits_borsh, Token.fits_borsh, and_assoc, and_comm]
  | gasRefunded event =>
    have hbase := EventBase.fits_borsh_of_untimed (b := event.base) fun _ => fits_unit
    simp [Event.borsh, GasRefundedEvent.borsh, Event.lengths, Event.timestamps, hbase,
      TxEvent.fits_borsh, Address.fits_borsh, Token.fits_borsh, and_assoc, and_comm]
  | call event =>
    have hbase := EventBase.fits_borsh_of_untimed (b := event.base)
      fun _ => CallEventMetadata.fits_borsh
    simp [Event.borsh, CallEvent.borsh, Event.lengths, Event.timestamps, hbase,
      GatewayV2Message.fits_borsh, Borsh.fits_string, and_assoc, and_left_comm, and_comm]
  | messageApproved event =>
    have hbase := EventBase.fits_borsh_of_untimed (b := event.base)
      fun _ => MessageApprovedEventMetadata.fits_borsh
    simp [Event.borsh, MessageApprovedEvent.borsh, Event.lengths, Event.timestamps, hbase,
      GatewayV2Message.fits_borsh, Token.fits_borsh, and_assoc, and_left_comm, and_comm]
  | messageExecuted event =>
    have hbase := EventBase.fits_borsh_of_untimed (b := event.base)
      fun _ => MessageExecutedEventMetadata.fits_borsh
    simp [Event.borsh, MessageExecutedEvent.borsh, Event.lengths, Event.timestamps, hbase,
      TxEvent.fits_borsh, Borsh.fits_string, Token.fits_borsh, and_assoc, and_left_comm, and_comm]
  | cannotExecuteMessageV2 event =>
    have hbase := EventBase.fits_borsh (b := event.base)
      fun _ => CannotExecuteMessageEventV2Metadata.fits_borsh
    simp [Event.borsh, CannotExecuteMessageEventV2.borsh, Event.lengths, Event.timestamps, hbase,
      TxEvent.fits_borsh, Borsh.fits_string, and_assoc, and_left_comm, and_comm]
  | signersRotated event =>
    have hbase := EventBase.fits_borsh_of_untimed (b := event.base)
      fun _ => SignersRotatedMetadata.fits_borsh
    simp [Event.borsh, SignersRotatedEvent.borsh, Event.lengths, Event.timestamps, hbase,
      Token.fits_borsh, and_assoc, and_left_comm, and_comm]

theorem Task.fits_borsh {task : Task} : Task.borsh.Fits task ↔ Short task.lengths := by
  cases task with
  | constructProof task =>
    simp [Task.borsh, ConstructProofTask.borsh, Task.lengths, GatewayV2Message.fits_borsh]
  | verify task => simp [Task.borsh, VerifyTask.borsh, Task.lengths, GatewayV2Message.fits_borsh]
  | gatewayTx task => simp [Task.borsh, GatewayTransactionTask.borsh, Task.lengths]
  | execute task =>
    simp [Task.borsh, ExecuteTask.borsh, Task.lengths, GatewayV2Message.fits_borsh,
      Token.fits_borsh]
  | refund task =>
    simp [Task.borsh, RefundTask.borsh, Task.lengths, GatewayV2Message.fits_borsh,
      Address.fits_borsh, Token.fits_borsh]

/-- **A task fits exactly when its lengths do and its timestamp is valid.** -/
theorem TaskItem.fits_borsh_iff (task : TaskItem) : TaskItem.borsh.Fits task ↔
    (∀ n ∈ task.task.lengths, n < 2 ^ 32) ∧ task.timestamp.Valid := by
  show TaskItemId.borsh.Fits task.id ∧ task.timestamp.Valid ∧ Task.borsh.Fits task.task ↔ _
  rw [Task.fits_borsh]
  exact ⟨fun h => ⟨h.2.2, h.2.1⟩, fun h => ⟨TaskItemId.fits_borsh task.id, h.2, h.1⟩⟩

end RelayerCore
