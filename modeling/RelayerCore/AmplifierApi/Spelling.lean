import RelayerCore.AmplifierApi.BigInt
import RelayerCore.Lib.Strict

/-!
# What the borsh encodings of events and tasks accept

Every field but the amounts is read only as it is written.  An amount is read from every spelling
of its number, and only a numeral is the one that is written.
-/

namespace RelayerCore

open Codec

/-- The amounts of a codec that is strict otherwise, as they are spelled. -/
abbrev Amounts {α : Type} (c : Codec α) :=
  Spelling (fun s : String => Decimal.isNumeral s.toList = true) c

/-! ### Strict parts -/

theorem strict_utc : utc.Strict := by
  refine .of_read fun {bytes t rest} h => ?_
  obtain ⟨⟨⟨secs, nsecs⟩, mid⟩, hpair, h⟩ := Option.bind_eq_some_iff.mp h
  obtain ⟨t', ht, h⟩ := Option.bind_eq_some_iff.mp h
  cases h
  unfold DateTime.fromTimestamp at ht
  split_ifs at ht with hvalid
  cases ht
  exact ⟨hvalid, (Borsh.strict_i64.pair (strict_nat 4)).eq hpair⟩

theorem strict_optionUtc : optionUtc.Strict := by
  refine .of_read fun {bytes o rest} h => ?_
  dsimp only [optionUtc] at h ⊢
  unfold deserializeOptionUtc at h
  split at h
  · cases h
    exact ⟨fun t ht => (by cases ht), rfl⟩
  · obtain ⟨⟨t, mid⟩, ht, h⟩ := Option.bind_eq_some_iff.mp h
    cases h
    refine ⟨fun t' ht' => ?_, congrArg (1 :: ·) (strict_utc.eq ht)⟩
    cases ht'
    exact strict_utc.fits ht
  · cases h

theorem TxId.strict_borsh : TxId.borsh.Strict := Borsh.strict_string.via fun _ _ => rfl

theorem TokenId.strict_borsh : TokenId.borsh.Strict := Borsh.strict_string.via fun _ _ => rfl

theorem TxEvent.strict_borsh : TxEvent.borsh.Strict := Borsh.strict_string.via fun _ _ => rfl

theorem CommandId.strict_borsh : CommandId.borsh.Strict := Borsh.strict_string.via fun _ _ => rfl

theorem TaskItemId.strict_borsh : TaskItemId.borsh.Strict := Borsh.strict_bits128.via fun _ _ => rfl

theorem CannotExecuteMessageReason.strict_borsh : CannotExecuteMessageReason.borsh.Strict := by
  refine Borsh.strict_u8.check fun b reason _ h => ⟨trivial, ?_⟩
  split at h
  · cases h
    rfl
  · cases h
    rfl
  · cases h

theorem MessageExecutionStatus.strict_borsh : MessageExecutionStatus.borsh.Strict := by
  refine Borsh.strict_u8.check fun b status _ h => ⟨trivial, ?_⟩
  split at h
  · cases h
    rfl
  · cases h
    rfl
  · cases h

theorem GatewayV2Message.strict_borsh : GatewayV2Message.borsh.Strict :=
  (TxEvent.strict_borsh.pair (Borsh.strict_string.pair (Borsh.strict_string.pair
    (Borsh.strict_string.pair Borsh.strict_bytes)))).via fun _ _ => rfl

section Base

variable {T : Type} {extra : Codec T}

theorem EventMetadata.strict_borsh (h : extra.Strict) : (EventMetadata.borsh extra).Strict :=
  (TxId.strict_borsh.option.pair (strict_optionUtc.pair (Borsh.strict_string.option.pair
    (Borsh.strict_bool.option.pair h)))).via fun _ _ => rfl

theorem EventBase.strict_borsh (h : extra.Strict) : (EventBase.borsh extra).Strict :=
  (TxEvent.strict_borsh.pair (EventMetadata.strict_borsh h).option).via fun _ _ => rfl

end Base

theorem CallEventMetadata.strict_borsh : CallEventMetadata.borsh.Strict :=
  TxEvent.strict_borsh.option.via fun _ _ => rfl

theorem MessageApprovedEventMetadata.strict_borsh : MessageApprovedEventMetadata.borsh.Strict :=
  CommandId.strict_borsh.option.via fun _ _ => rfl

theorem MessageExecutedEventMetadata.strict_borsh : MessageExecutedEventMetadata.borsh.Strict :=
  (CommandId.strict_borsh.option.pair TxEvent.strict_borsh.list.option).via fun _ _ => rfl

theorem CannotExecuteMessageEventV2Metadata.strict_borsh :
    CannotExecuteMessageEventV2Metadata.borsh.Strict :=
  (Borsh.strict_string.option.pair (strict_optionUtc.pair TaskItemId.strict_borsh)).via
    fun _ _ => rfl

theorem SignersRotatedMetadata.strict_borsh : SignersRotatedMetadata.borsh.Strict :=
  (Borsh.strict_bytes.pair Borsh.strict_u64).via fun _ _ => rfl

/-! ### Amounts -/

theorem BigInt.isNumeral_iff {s : String} {value : BigInt} (h : BigInt.parse s = some value) :
    Decimal.isNumeral s.toList = true ↔ value.toString = s :=
  Decimal.isNumeral_iff (BigInt.inRange_of_parse h)

def BigInt.amounts : Amounts BigInt.borsh :=
  .check Borsh.strict_string BigInt.fits_borsh fun _ _ => BigInt.isNumeral_iff

def Token.amounts : Amounts Token.borsh :=
  ((Spelling.ofStrict TokenId.strict_borsh.option).pair BigInt.amounts).via fun _ => rfl

/-! ### Events -/

def GasCreditEvent.amounts : Amounts GasCreditEvent.borsh :=
  ((Spelling.ofStrict (EventBase.strict_borsh Borsh.strict_unit)).pair
    ((Spelling.ofStrict TxEvent.strict_borsh).pair
      ((Spelling.ofStrict Borsh.strict_string).pair Token.amounts))).via fun _ => rfl

def GasRefundedEvent.amounts : Amounts GasRefundedEvent.borsh :=
  ((Spelling.ofStrict (EventBase.strict_borsh Borsh.strict_unit)).pair
    ((Spelling.ofStrict TxEvent.strict_borsh).pair
      ((Spelling.ofStrict Borsh.strict_string).pair (Token.amounts.pair Token.amounts)))).via
    fun _ => rfl

def CallEvent.amounts : Amounts CallEvent.borsh :=
  ((Spelling.ofStrict (EventBase.strict_borsh CallEventMetadata.strict_borsh)).pair
    (Spelling.ofStrict (GatewayV2Message.strict_borsh.pair
      (Borsh.strict_string.pair Borsh.strict_bytes)))).via fun _ => rfl

def MessageApprovedEvent.amounts : Amounts MessageApprovedEvent.borsh :=
  ((Spelling.ofStrict (EventBase.strict_borsh MessageApprovedEventMetadata.strict_borsh)).pair
    ((Spelling.ofStrict GatewayV2Message.strict_borsh).pair Token.amounts)).via fun _ => rfl

def SignersRotatedEvent.amounts : Amounts SignersRotatedEvent.borsh :=
  ((Spelling.ofStrict (EventBase.strict_borsh SignersRotatedMetadata.strict_borsh)).pair
    Token.amounts).via fun _ => rfl

def MessageExecutedEvent.amounts : Amounts MessageExecutedEvent.borsh :=
  ((Spelling.ofStrict (EventBase.strict_borsh MessageExecutedEventMetadata.strict_borsh)).pair
    ((Spelling.ofStrict TxEvent.strict_borsh).pair
      ((Spelling.ofStrict Borsh.strict_string).pair
        ((Spelling.ofStrict MessageExecutionStatus.strict_borsh).pair Token.amounts)))).via
    fun _ => rfl

def CannotExecuteMessageEventV2.amounts : Amounts CannotExecuteMessageEventV2.borsh :=
  .ofStrict (((EventBase.strict_borsh CannotExecuteMessageEventV2Metadata.strict_borsh).pair
    (TxEvent.strict_borsh.pair (Borsh.strict_string.pair
      (CannotExecuteMessageReason.strict_borsh.pair Borsh.strict_string)))).via fun _ _ => rfl)

def Event.amounts : Amounts Event.borsh :=
  .ofRead
    (fun
      | 0 :: bytes => GasCreditEvent.amounts.parts bytes
      | 1 :: bytes => GasRefundedEvent.amounts.parts bytes
      | 2 :: bytes => CallEvent.amounts.parts bytes
      | 3 :: bytes => MessageApprovedEvent.amounts.parts bytes
      | 4 :: bytes => MessageExecutedEvent.amounts.parts bytes
      | 5 :: bytes => CannotExecuteMessageEventV2.amounts.parts bytes
      | 6 :: bytes => SignersRotatedEvent.amounts.parts bytes
      | _ => []) fun {bytes event rest} h => by
    dsimp only [Event.borsh] at h
    split at h
    · obtain ⟨event, rfl, hread⟩ := GasCreditEvent.amounts.eq_iff_tag h 0
      exact hread
    · obtain ⟨event, rfl, hread⟩ := GasRefundedEvent.amounts.eq_iff_tag h 1
      exact hread
    · obtain ⟨event, rfl, hread⟩ := CallEvent.amounts.eq_iff_tag h 2
      exact hread
    · obtain ⟨event, rfl, hread⟩ := MessageApprovedEvent.amounts.eq_iff_tag h 3
      exact hread
    · obtain ⟨event, rfl, hread⟩ := MessageExecutedEvent.amounts.eq_iff_tag h 4
      exact hread
    · obtain ⟨event, rfl, hread⟩ := CannotExecuteMessageEventV2.amounts.eq_iff_tag h 5
      exact hread
    · obtain ⟨event, rfl, hread⟩ := SignersRotatedEvent.amounts.eq_iff_tag h 6
      exact hread
    · cases h

/-! ### Tasks -/

def VerifyTask.amounts : Amounts VerifyTask.borsh :=
  .ofStrict ((GatewayV2Message.strict_borsh.pair Borsh.strict_bytes).via fun _ _ => rfl)

def ConstructProofTask.amounts : Amounts ConstructProofTask.borsh :=
  .ofStrict ((GatewayV2Message.strict_borsh.pair Borsh.strict_bytes).via fun _ _ => rfl)

def GatewayTransactionTask.amounts : Amounts GatewayTransactionTask.borsh :=
  .ofStrict (Borsh.strict_bytes.via fun _ _ => rfl)

def ExecuteTask.amounts : Amounts ExecuteTask.borsh :=
  ((Spelling.ofStrict GatewayV2Message.strict_borsh).pair
    ((Spelling.ofStrict Borsh.strict_bytes).pair Token.amounts)).via fun _ => rfl

def RefundTask.amounts : Amounts RefundTask.borsh :=
  ((Spelling.ofStrict GatewayV2Message.strict_borsh).pair
    ((Spelling.ofStrict Borsh.strict_string).pair Token.amounts)).via fun _ => rfl

def Task.amounts : Amounts Task.borsh :=
  .ofRead
    (fun
      | 0 :: bytes => ConstructProofTask.amounts.parts bytes
      | 1 :: bytes => VerifyTask.amounts.parts bytes
      | 2 :: bytes => GatewayTransactionTask.amounts.parts bytes
      | 3 :: bytes => ExecuteTask.amounts.parts bytes
      | 4 :: bytes => RefundTask.amounts.parts bytes
      | _ => []) fun {bytes task rest} h => by
    dsimp only [Task.borsh] at h
    split at h
    · obtain ⟨task, rfl, hread⟩ := ConstructProofTask.amounts.eq_iff_tag h 0
      exact hread
    · obtain ⟨task, rfl, hread⟩ := VerifyTask.amounts.eq_iff_tag h 1
      exact hread
    · obtain ⟨task, rfl, hread⟩ := GatewayTransactionTask.amounts.eq_iff_tag h 2
      exact hread
    · obtain ⟨task, rfl, hread⟩ := ExecuteTask.amounts.eq_iff_tag h 3
      exact hread
    · obtain ⟨task, rfl, hread⟩ := RefundTask.amounts.eq_iff_tag h 4
      exact hread
    · cases h

def TaskItem.amounts : Amounts TaskItem.borsh :=
  ((Spelling.ofStrict TaskItemId.strict_borsh).pair
    ((Spelling.ofStrict strict_utc).pair Task.amounts)).via fun _ => rfl

end RelayerCore
