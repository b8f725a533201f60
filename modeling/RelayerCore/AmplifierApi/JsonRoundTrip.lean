import RelayerCore.AmplifierApi.Json

/-!
# Decoding what was encoded

Every object of the format has names of its own, and what is flattened into an object has other
names than its fields, with one exception: the metadata of `CannotExecuteMessageEventV2` has a
`fromAddress` and a `timestamp`, as the metadata around it has.  The outer fields read both names,
whoever wrote them, so an event that has one of the inner fields is not read back.
-/

namespace RelayerCore

open Serde Serde.Fields

variable {sc : Scalars}

@[simp] theorem names_named : (EventMetadata.named sc).names =
    ["txID", "timestamp", "fromAddress", "finalized"] := rfl

@[simp] theorem names_base {T : Type} (extra : Fields T) :
    (EventBase.fields sc extra).names = ["eventID", "meta"] := rfl

/-! ### Parts -/

section Parts

theorem roundTrips_time (hsc : sc.Documented) {t : DateTime} (h : t.Rfc3339) :
    (DateTime.json sc).RoundTrips t := roundTrips_text (hsc.rfc3339 t h)

theorem roundTrips_base64 (hsc : sc.Documented) (bytes : List UInt8) :
    (base64 sc).RoundTrips bytes := roundTrips_text (hsc.base64 bytes)

theorem roundTrips_taskItemId (hsc : sc.Documented) (id : TaskItemId) :
    (TaskItemId.json sc).RoundTrips id := by
  refine roundTrips_text ?_
  rw [hsc.uuid]
  rfl

theorem roundTrips_amount (value : BigInt) : BigInt.json.RoundTrips value :=
  roundTrips_text value.parse_toString

theorem roundTrips_txId (id : TxId) : TxId.json.RoundTrips id := roundTrips_text rfl

theorem roundTrips_tokenId (id : TokenId) : TokenId.json.RoundTrips id := roundTrips_text rfl

theorem roundTrips_txEvent (id : TxEvent) : TxEvent.json.RoundTrips id := roundTrips_text rfl

theorem roundTrips_commandId (id : CommandId) : CommandId.json.RoundTrips id := roundTrips_text rfl

theorem roundTrips_reason (reason : CannotExecuteMessageReason) :
    CannotExecuteMessageReason.json.RoundTrips reason :=
  roundTrips_text (by cases reason <;> rfl)

theorem roundTrips_status (status : MessageExecutionStatus) :
    MessageExecutionStatus.json.RoundTrips status :=
  roundTrips_text (by cases status <;> rfl)

theorem roundTrips_token (token : Token) : Token.fields.object.RoundTrips token := by
  have htokenId : (optional "tokenID" TokenId.json).RoundTrips token.tokenId :=
    roundTrips_optional (neverNull_text _ _) fun id _ => roundTrips_tokenId id
  have hamount : (required "amount" BigInt.json).RoundTrips token.amount :=
    roundTrips_required (roundTrips_amount _)
  refine roundTrips_object (RoundTrips.via ?_ rfl)
  exact htokenId.pair hamount (by simp)

theorem roundTrips_message (hsc : sc.Documented) (message : GatewayV2Message) :
    (GatewayV2Message.fields sc).object.RoundTrips message := by
  refine roundTrips_object (RoundTrips.via ?_ rfl)
  refine (roundTrips_required (roundTrips_txEvent _)).pair ?_ (by simp)
  refine (roundTrips_required (roundTrips_string _)).pair ?_ (by simp)
  refine (roundTrips_required (roundTrips_string _)).pair ?_ (by simp)
  refine (roundTrips_required (roundTrips_string _)).pair ?_ (by simp)
  exact roundTrips_required (roundTrips_base64 hsc _)

end Parts

/-! ### Metadata -/

section Metadata

variable {T : Type} {extra : Fields T}

theorem roundTrips_named (hsc : sc.Documented) {m : EventMetadata T}
    (htime : ∀ t ∈ m.timestamp, t.Rfc3339) :
    (EventMetadata.named sc).RoundTrips (m.txId, m.timestamp, m.fromAddress, m.finalized) := by
  refine (roundTrips_optional (neverNull_text _ _) fun id _ => roundTrips_txId id).pair ?_
    (by simp)
  refine (roundTrips_optional (neverNull_text _ _) fun t ht =>
    roundTrips_time hsc (htime t ht)).pair ?_ (by simp)
  refine (roundTrips_optional (neverNull_text _ _) fun s _ => roundTrips_string s).pair ?_
    (by simp)
  exact roundTrips_optional neverNull_bool fun b _ => roundTrips_bool b

/-- Metadata whose extra fields avoid the named ones. -/
theorem roundTrips_metadata (hsc : sc.Documented) {m : EventMetadata T}
    (htime : ∀ t ∈ m.timestamp, t.Rfc3339) (hextra : extra.RoundTrips m.extra)
    (hout : ∀ e ∈ extra.entries m.extra, e.1 ∉ (EventMetadata.named sc).names) :
    (EventMetadata.fields sc extra).RoundTrips m := by
  refine RoundTrips.via ?_ rfl
  exact (roundTrips_named hsc htime).flattenLast hextra hout

theorem roundTrips_base {b : EventBase T}
    (h : ∀ m ∈ b.metadata, (EventMetadata.fields sc extra).RoundTrips m) :
    (EventBase.fields sc extra).RoundTrips b := by
  have hmetadata : (optional "meta" (EventMetadata.fields sc extra).object).RoundTrips b.metadata :=
    roundTrips_optional (neverNull_object _) fun m hm => roundTrips_object (h m hm)
  have hid : (required "eventID" TxEvent.json).RoundTrips b.eventId :=
    roundTrips_required (roundTrips_txEvent _)
  refine RoundTrips.via ?_ rfl
  exact hid.pair hmetadata (by simp)

theorem time_of_timestamps {times : T → List DateTime} {b : EventBase T}
    (h : ∀ t ∈ b.timestamps times, t.Rfc3339) :
    ∀ m ∈ b.metadata, (∀ t ∈ m.timestamp, t.Rfc3339) ∧ ∀ t ∈ times m.extra, t.Rfc3339 := by
  intro m hm
  have htimes : b.timestamps times = m.timestamp.toList ++ times m.extra := by
    unfold EventBase.timestamps
    rw [Option.mem_def.mp hm]
  rw [htimes] at h
  exact ⟨fun t ht => h t (List.mem_append_left _ (Option.mem_toList.mpr ht)),
    fun t ht => h t (List.mem_append_right _ ht)⟩

/-- The base of an event whose kind has names of its own for its metadata. -/
theorem roundTrips_base_of_apart (hsc : sc.Documented) {b : EventBase T}
    (htimes : ∀ t ∈ b.timestamps fun _ => [], t.Rfc3339)
    (hextra : ∀ x, extra.RoundTrips x) (hapart : Apart extra (EventMetadata.named sc)) :
    (EventBase.fields sc extra).RoundTrips b := by
  refine roundTrips_base fun m hm => ?_
  obtain ⟨htime, -⟩ := time_of_timestamps htimes m hm
  exact roundTrips_metadata hsc htime (hextra m.extra) ((hextra m.extra).notMem_of_apart hapart)

end Metadata

theorem roundTrips_callMetadata (m : CallEventMetadata) : CallEventMetadata.fields.RoundTrips m :=
  RoundTrips.via (roundTrips_optional (neverNull_text _ _) fun id _ => roundTrips_txEvent id) rfl

theorem roundTrips_approvedMetadata (m : MessageApprovedEventMetadata) :
    MessageApprovedEventMetadata.fields.RoundTrips m :=
  RoundTrips.via (roundTrips_optional (neverNull_text _ _) fun id _ => roundTrips_commandId id) rfl

theorem roundTrips_executedMetadata (m : MessageExecutedEventMetadata) :
    MessageExecutedEventMetadata.fields.RoundTrips m := by
  refine RoundTrips.via (RoundTrips.pair ?_ ?_ (by simp)) rfl
  · exact roundTrips_optional (neverNull_text _ _) fun id _ => roundTrips_commandId id
  · exact roundTrips_optional (neverNull_array _) fun ids _ =>
      roundTrips_array fun id _ => roundTrips_txEvent id

theorem roundTrips_rotatedMetadata (hsc : sc.Documented) (m : SignersRotatedMetadata) :
    (SignersRotatedMetadata.fields sc).RoundTrips m := by
  refine RoundTrips.via (RoundTrips.pair ?_ ?_ (by simp)) rfl
  · exact roundTrips_required (roundTrips_base64 hsc _)
  · exact roundTrips_required (roundTrips_u64 _)

theorem roundTrips_cannotExecuteMetadata (hsc : sc.Documented)
    {m : CannotExecuteMessageEventV2Metadata} (htime : ∀ t ∈ m.timestamp, t.Rfc3339) :
    (CannotExecuteMessageEventV2Metadata.fields sc).RoundTrips m := by
  refine RoundTrips.via (RoundTrips.pair ?_ (RoundTrips.pair ?_ ?_ (by simp)) (by simp)) rfl
  · exact roundTrips_optional (neverNull_text _ _) fun s _ => roundTrips_string s
  · exact roundTrips_optional (neverNull_text _ _) fun t ht => roundTrips_time hsc (htime t ht)
  · exact roundTrips_required (roundTrips_taskItemId hsc _)

/-! ### Events -/

section Events

theorem roundTrips_gasCredit {e : GasCreditEvent}
    (hbase : (EventBase.fields sc Fields.unit).RoundTrips e.base) :
    (GasCreditEvent.fields sc).RoundTrips e := by
  refine RoundTrips.via (hbase.flattenFirst ?_ (hbase.notMem_of_apart (by simp))) rfl
  refine (roundTrips_required (roundTrips_txEvent _)).pair ?_ (by simp)
  refine (roundTrips_required (roundTrips_string _)).pair ?_ (by simp)
  exact roundTrips_required (roundTrips_token _)

theorem roundTrips_gasRefunded {e : GasRefundedEvent}
    (hbase : (EventBase.fields sc Fields.unit).RoundTrips e.base) :
    (GasRefundedEvent.fields sc).RoundTrips e := by
  refine RoundTrips.via (hbase.flattenFirst ?_ (hbase.notMem_of_apart (by simp))) rfl
  refine (roundTrips_required (roundTrips_txEvent _)).pair ?_ (by simp)
  refine (roundTrips_required (roundTrips_string _)).pair ?_ (by simp)
  refine (roundTrips_required (roundTrips_token _)).pair ?_ (by simp)
  exact roundTrips_required (roundTrips_token _)

theorem roundTrips_call (hsc : sc.Documented) {e : CallEvent}
    (hbase : (EventBase.fields sc CallEventMetadata.fields).RoundTrips e.base) :
    (CallEvent.fields sc).RoundTrips e := by
  refine RoundTrips.via (hbase.flattenFirst ?_ (hbase.notMem_of_apart (by simp))) rfl
  refine (roundTrips_required (roundTrips_message hsc _)).pair ?_ (by simp)
  refine (roundTrips_required (roundTrips_string _)).pair ?_ (by simp)
  exact roundTrips_required (roundTrips_base64 hsc _)

theorem roundTrips_messageApproved (hsc : sc.Documented) {e : MessageApprovedEvent}
    (hbase : (EventBase.fields sc MessageApprovedEventMetadata.fields).RoundTrips e.base) :
    (MessageApprovedEvent.fields sc).RoundTrips e := by
  refine RoundTrips.via (hbase.flattenFirst ?_ (hbase.notMem_of_apart (by simp))) rfl
  refine (roundTrips_required (roundTrips_message hsc _)).pair ?_ (by simp)
  exact roundTrips_required (roundTrips_token _)

theorem roundTrips_signersRotated {e : SignersRotatedEvent}
    (hbase : (EventBase.fields sc (SignersRotatedMetadata.fields sc)).RoundTrips e.base) :
    (SignersRotatedEvent.fields sc).RoundTrips e := by
  refine RoundTrips.via (hbase.flattenFirst ?_ (hbase.notMem_of_apart (by simp))) rfl
  exact roundTrips_required (roundTrips_token _)

theorem roundTrips_messageExecuted {e : MessageExecutedEvent}
    (hbase : (EventBase.fields sc MessageExecutedEventMetadata.fields).RoundTrips e.base) :
    (MessageExecutedEvent.fields sc).RoundTrips e := by
  refine RoundTrips.via (hbase.flattenFirst ?_ (hbase.notMem_of_apart (by simp))) rfl
  refine (roundTrips_required (roundTrips_txEvent _)).pair ?_ (by simp)
  refine (roundTrips_required (roundTrips_string _)).pair ?_ (by simp)
  refine (roundTrips_required (roundTrips_status _)).pair ?_ (by simp)
  exact roundTrips_required (roundTrips_token _)

theorem roundTrips_cannotExecute {e : CannotExecuteMessageEventV2}
    (hbase : (EventBase.fields sc (CannotExecuteMessageEventV2Metadata.fields sc)).RoundTrips
      e.base) : (CannotExecuteMessageEventV2.fields sc).RoundTrips e := by
  refine RoundTrips.via (hbase.flattenFirst ?_ (hbase.notMem_of_apart (by simp))) rfl
  refine (roundTrips_required (roundTrips_txEvent _)).pair ?_ (by simp)
  refine (roundTrips_required (roundTrips_string _)).pair ?_ (by simp)
  refine (roundTrips_required (roundTrips_reason _)).pair ?_ (by simp)
  exact roundTrips_required (roundTrips_string _)

/-! An event is tagged with the name of its variant, which is no name of its fields. -/

theorem roundTrips_event_gasCredit {e : GasCreditEvent}
    (h : (GasCreditEvent.fields sc).RoundTrips e) : (Event.json sc).RoundTrips (.gasCredit e) :=
  roundTrips_tagged h (by simp [GasCreditEvent.fields]) rfl (fun _ => rfl) fun _ => rfl

theorem roundTrips_event_gasRefunded {e : GasRefundedEvent}
    (h : (GasRefundedEvent.fields sc).RoundTrips e) : (Event.json sc).RoundTrips (.gasRefunded e) :=
  roundTrips_tagged h (by simp [GasRefundedEvent.fields]) rfl (fun _ => rfl) fun _ => rfl

theorem roundTrips_event_call {e : CallEvent} (h : (CallEvent.fields sc).RoundTrips e) :
    (Event.json sc).RoundTrips (.call e) :=
  roundTrips_tagged h (by simp [CallEvent.fields]) rfl (fun _ => rfl) fun _ => rfl

theorem roundTrips_event_messageApproved {e : MessageApprovedEvent}
    (h : (MessageApprovedEvent.fields sc).RoundTrips e) :
    (Event.json sc).RoundTrips (.messageApproved e) :=
  roundTrips_tagged h (by simp [MessageApprovedEvent.fields]) rfl (fun _ => rfl) fun _ => rfl

theorem roundTrips_event_messageExecuted {e : MessageExecutedEvent}
    (h : (MessageExecutedEvent.fields sc).RoundTrips e) :
    (Event.json sc).RoundTrips (.messageExecuted e) :=
  roundTrips_tagged h (by simp [MessageExecutedEvent.fields]) rfl (fun _ => rfl) fun _ => rfl

theorem roundTrips_event_cannotExecute {e : CannotExecuteMessageEventV2}
    (h : (CannotExecuteMessageEventV2.fields sc).RoundTrips e) :
    (Event.json sc).RoundTrips (.cannotExecuteMessageV2 e) :=
  roundTrips_tagged h (by simp [CannotExecuteMessageEventV2.fields]) rfl (fun _ => rfl)
    fun _ => rfl

theorem roundTrips_event_signersRotated {e : SignersRotatedEvent}
    (h : (SignersRotatedEvent.fields sc).RoundTrips e) :
    (Event.json sc).RoundTrips (.signersRotated e) :=
  roundTrips_tagged h (by simp [SignersRotatedEvent.fields]) rfl (fun _ => rfl) fun _ => rfl

end Events

/-! ### The fields that are hidden -/

section Unshadowed

/-- None of the fields that the outer metadata would take is present. -/
structure CannotExecuteMessageEventV2Metadata.Unshadowed
    (m : CannotExecuteMessageEventV2Metadata) : Prop where
  fromAddress : m.fromAddress = none
  timestamp : m.timestamp = none

def Event.Unshadowed : Event → Prop
  | .cannotExecuteMessageV2 event => ∀ m ∈ event.base.metadata, m.extra.Unshadowed
  | _ => True

theorem entries_of_unshadowed {m : CannotExecuteMessageEventV2Metadata} (h : m.Unshadowed) :
    (CannotExecuteMessageEventV2Metadata.fields sc).entries m =
      [("taskItemID", (TaskItemId.json sc).serialize m.taskItemId)] := by
  obtain ⟨fromAddress, timestamp, taskItemId⟩ := m
  obtain ⟨rfl, rfl⟩ := h
  rfl

theorem metadata_of_read_base {T : Type} {extra : Fields T} {b : EventBase T} {es : Entries}
    (h : (EventBase.fields sc extra).read es = some b) :
    ∀ m ∈ b.metadata, ∃ es', (EventMetadata.fields sc extra).read es' = some m := by
  obtain ⟨p, hp, rfl⟩ := read_via h
  intro m hm
  obtain ⟨-, hmetadata⟩ := read_pair hp
  rw [show p.2 = some m from hm] at hmetadata
  obtain ⟨value, -, hvalue⟩ := read_optional hmetadata
  cases value with
  | object es' => exact ⟨es', hvalue⟩
  | null | bool b | number n | string s | array items => cases hvalue

/-- Whatever was written, the outer fields are read first. -/
theorem unshadowed_of_read_metadata {m : EventMetadata CannotExecuteMessageEventV2Metadata}
    {es : Entries} (h : (EventMetadata.fields sc
      (CannotExecuteMessageEventV2Metadata.fields sc)).read es = some m) :
    m.extra.Unshadowed := by
  obtain ⟨p, hp, rfl⟩ := read_via h
  obtain ⟨-, hextra⟩ := read_flattenLast hp
  obtain ⟨q, hq, hq'⟩ := read_via hextra
  obtain ⟨hfromAddress, hrest⟩ := read_pair hq
  obtain ⟨htimestamp, -⟩ := read_pair hrest
  have hfrom : q.1 = none := read_optional_others (by simp) hfromAddress
  have htime : q.2.1 = none := read_optional_others (by simp) htimestamp
  show p.2.Unshadowed
  rw [← hq']
  exact ⟨hfrom, htime⟩

theorem read_of_deserialize {e : CannotExecuteMessageEventV2} {value : Json}
    (h : (Event.json sc).deserialize value = some (.cannotExecuteMessageV2 e)) :
    ∃ es, (CannotExecuteMessageEventV2.fields sc).read es = some e := by
  obtain ⟨⟨name, es⟩, -, h⟩ := Option.bind_eq_some_iff.mp h
  refine ⟨es, ?_⟩
  -- every other branch makes another variant
  split at h
  all_goals simp_all

/-- No event is read with a hidden field. -/
theorem unshadowed_of_deserialize {v : Event} {value : Json}
    (h : (Event.json sc).deserialize value = some v) : v.Unshadowed := by
  cases v with
  | cannotExecuteMessageV2 e =>
    obtain ⟨es, hes⟩ := read_of_deserialize h
    obtain ⟨p, hp, rfl⟩ := read_via hes
    obtain ⟨hbase, -⟩ := read_flattenFirst hp
    intro m hm
    obtain ⟨es', hes'⟩ := metadata_of_read_base hbase m hm
    exact unshadowed_of_read_metadata hes'
  | gasCredit e | gasRefunded e | call e | messageApproved e | messageExecuted e
  | signersRotated e => trivial

theorem roundTrips_of_unshadowed (hsc : sc.Documented) {v : Event}
    (htimes : ∀ t ∈ v.timestamps, t.Rfc3339) (h : v.Unshadowed) :
    (Event.json sc).RoundTrips v := by
  cases v with
  | gasCredit e =>
    refine roundTrips_event_gasCredit (roundTrips_gasCredit ?_)
    exact roundTrips_base_of_apart hsc htimes (fun _ => roundTrips_unit) (by simp)
  | gasRefunded e =>
    refine roundTrips_event_gasRefunded (roundTrips_gasRefunded ?_)
    exact roundTrips_base_of_apart hsc htimes (fun _ => roundTrips_unit) (by simp)
  | call e =>
    refine roundTrips_event_call (roundTrips_call hsc ?_)
    exact roundTrips_base_of_apart hsc htimes roundTrips_callMetadata
      (by simp [CallEventMetadata.fields])
  | messageApproved e =>
    refine roundTrips_event_messageApproved (roundTrips_messageApproved hsc ?_)
    exact roundTrips_base_of_apart hsc htimes roundTrips_approvedMetadata
      (by simp [MessageApprovedEventMetadata.fields])
  | messageExecuted e =>
    refine roundTrips_event_messageExecuted (roundTrips_messageExecuted ?_)
    exact roundTrips_base_of_apart hsc htimes roundTrips_executedMetadata
      (by simp [MessageExecutedEventMetadata.fields])
  | signersRotated e =>
    refine roundTrips_event_signersRotated (roundTrips_signersRotated ?_)
    exact roundTrips_base_of_apart hsc htimes (roundTrips_rotatedMetadata hsc)
      (by simp [SignersRotatedMetadata.fields])
  | cannotExecuteMessageV2 e =>
    refine roundTrips_event_cannotExecute (roundTrips_cannotExecute ?_)
    have hbase : ∀ t ∈ e.base.timestamps fun m => m.timestamp.toList, t.Rfc3339 := htimes
    refine roundTrips_base fun m hm => ?_
    obtain ⟨htime, hextra⟩ := time_of_timestamps hbase m hm
    refine roundTrips_metadata hsc htime (roundTrips_cannotExecuteMetadata hsc ?_) ?_
    · exact fun t ht => hextra t (Option.mem_toList.mpr ht)
    · -- only the task id is left in `extra`, and no outer field has its name
      rw [entries_of_unshadowed (h m hm)]
      simp

end Unshadowed

/-! ### Tasks and results -/

section Tasks

theorem roundTrips_verify (hsc : sc.Documented) (t : VerifyTask) :
    (VerifyTask.fields sc).RoundTrips t := by
  refine RoundTrips.via ?_ rfl
  refine (roundTrips_required (roundTrips_message hsc _)).pair ?_ (by simp)
  exact roundTrips_required (roundTrips_base64 hsc _)

theorem roundTrips_constructProof (hsc : sc.Documented) (t : ConstructProofTask) :
    (ConstructProofTask.fields sc).RoundTrips t := by
  refine RoundTrips.via ?_ rfl
  refine (roundTrips_required (roundTrips_message hsc _)).pair ?_ (by simp)
  exact roundTrips_required (roundTrips_base64 hsc _)

theorem roundTrips_gatewayTx (hsc : sc.Documented) (t : GatewayTransactionTask) :
    (GatewayTransactionTask.fields sc).RoundTrips t :=
  RoundTrips.via (roundTrips_required (roundTrips_base64 hsc _)) rfl

theorem roundTrips_execute (hsc : sc.Documented) (t : ExecuteTask) :
    (ExecuteTask.fields sc).RoundTrips t := by
  refine RoundTrips.via ?_ rfl
  refine (roundTrips_required (roundTrips_message hsc _)).pair ?_ (by simp)
  refine (roundTrips_required (roundTrips_base64 hsc _)).pair ?_ (by simp)
  exact roundTrips_required (roundTrips_token _)

theorem roundTrips_refund (hsc : sc.Documented) (t : RefundTask) :
    (RefundTask.fields sc).RoundTrips t := by
  refine RoundTrips.via ?_ rfl
  refine (roundTrips_required (roundTrips_message hsc _)).pair ?_ (by simp)
  refine (roundTrips_required (roundTrips_string _)).pair ?_ (by simp)
  exact roundTrips_required (roundTrips_token _)

theorem roundTrips_task (hsc : sc.Documented) (t : Task) : (Task.fields sc).RoundTrips t := by
  have hne : "type" ≠ "task" := by decide
  cases t with
  | constructProof t =>
    exact roundTrips_adjacent (roundTrips_object (roundTrips_constructProof hsc t)) hne rfl rfl
      (fun _ => rfl) fun _ => rfl
  | verify t =>
    exact roundTrips_adjacent (roundTrips_object (roundTrips_verify hsc t)) hne rfl rfl
      (fun _ => rfl) fun _ => rfl
  | gatewayTx t =>
    exact roundTrips_adjacent (roundTrips_object (roundTrips_gatewayTx hsc t)) hne rfl rfl
      (fun _ => rfl) fun _ => rfl
  | execute t =>
    exact roundTrips_adjacent (roundTrips_object (roundTrips_execute hsc t)) hne rfl rfl
      (fun _ => rfl) fun _ => rfl
  | refund t =>
    exact roundTrips_adjacent (roundTrips_object (roundTrips_refund hsc t)) hne rfl rfl
      (fun _ => rfl) fun _ => rfl

theorem roundTrips_taskItem (hsc : sc.Documented) {t : TaskItem} (htime : t.timestamp.Rfc3339) :
    (TaskItem.json sc).RoundTrips t := by
  have hid : (required "id" (TaskItemId.json sc)).RoundTrips t.id :=
    roundTrips_required (roundTrips_taskItemId hsc _)
  have htimestamp : (required "timestamp" (DateTime.json sc)).RoundTrips t.timestamp :=
    roundTrips_required (roundTrips_time hsc htime)
  have hitem := hid.pair htimestamp (by simp)
  have htask := roundTrips_task hsc t.task
  refine roundTrips_object (RoundTrips.via (hitem.flattenLast htask ?_) rfl)
  exact htask.notMem_of_apart (by simp [Task.fields])

end Tasks

section Results

theorem roundTrips_resultBase (b : PublishEventResultItemBase) :
    PublishEventResultItemBase.fields.RoundTrips b :=
  RoundTrips.via (roundTrips_required (roundTrips_u64 _)) rfl

theorem roundTrips_accepted (r : PublishEventAcceptedResult) :
    PublishEventAcceptedResult.fields.RoundTrips r := by
  have hbase := roundTrips_resultBase r.base
  exact RoundTrips.via (hbase.flattenFirst roundTrips_unit (hbase.notMem_of_apart (by simp))) rfl

theorem roundTrips_error (r : PublishEventErrorResult) :
    PublishEventErrorResult.fields.RoundTrips r := by
  have hbase := roundTrips_resultBase r.base
  refine RoundTrips.via (hbase.flattenFirst ?_ (hbase.notMem_of_apart ?_)) rfl
  · exact (roundTrips_required (roundTrips_string _)).pair
      (roundTrips_required (roundTrips_bool _)) (by simp)
  · simp [PublishEventResultItemBase.fields]

theorem roundTrips_resultItem (v : PublishEventResultItem) :
    PublishEventResultItem.json.RoundTrips v := by
  cases v with
  | accepted r =>
    exact roundTrips_tagged (roundTrips_accepted r)
      (by simp [PublishEventAcceptedResult.fields, PublishEventResultItemBase.fields]) rfl
      (fun _ => rfl) fun _ => rfl
  | error r =>
    exact roundTrips_tagged (roundTrips_error r)
      (by simp [PublishEventErrorResult.fields, PublishEventResultItemBase.fields]) rfl
      (fun _ => rfl) fun _ => rfl

end Results

/-! ### Concrete conversions -/

/-- Conversions that write the time and the UUID of the events below as RFC 3339 and hyphenated
groups, and all others as plain numbers. -/
def sampleScalars : Scalars where
  formatRfc3339 t :=
    if t = ⟨1726061568, 0⟩ then "2024-09-11T13:32:48Z" else (t.secs * 2 ^ 32 + t.nanos).repr
  parseRfc3339 s :=
    if s = "2024-09-11T13:32:48Z" then some ⟨1726061568, 0⟩
    else (Decimal.parse s).map fun k => ⟨k / 2 ^ 32, (k % 2 ^ 32).toNat⟩
  base64Encode bytes := String.ofList (bytes.map fun b => Char.ofNat b.toNat)
  base64Decode s := some (s.toList.map fun c => UInt8.ofNat c.toNat)
  formatUuid uuid :=
    if uuid = 0 then "00000000-0000-0000-0000-000000000000" else (uuid.toNat : ℤ).repr
  parseUuid s :=
    if s = "00000000-0000-0000-0000-000000000000" then some 0
    else (Decimal.parse s).map fun k => BitVec.ofNat 128 k.toNat

/-- A number is not written with further signs or letters. -/
theorem repr_ne_of_parse {s : String} (h : Decimal.parse s = none) (k : ℤ) : k.repr ≠ s := by
  rintro rfl
  rw [Decimal.parse_repr] at h
  cases h

theorem sampleScalars_documented : sampleScalars.Documented where
  rfc3339 t ht := by
    by_cases hsample : t = ⟨1726061568, 0⟩
    · subst hsample
      decide
    · have hne := repr_ne_of_parse (s := "2024-09-11T13:32:48Z") (by decide)
        (t.secs * 2 ^ 32 + t.nanos)
      have hnanos : t.nanos < 2 ^ 32 := by
        rcases ht.nanos with h | h <;> omega
      have hsecs : (t.secs * 2 ^ 32 + t.nanos) / 2 ^ 32 = t.secs := by omega
      have hmod : ((t.secs * 2 ^ 32 + t.nanos) % 2 ^ 32).toNat = t.nanos := by omega
      simp only [sampleScalars, if_neg hsample, if_neg hne, Decimal.parse_repr, Option.map_some,
        hsecs, hmod]
  base64 bytes := by
    have hbyte : ∀ b : UInt8, UInt8.ofNat (Char.ofNat b.toNat).toNat = b := fun b => by
      have hvalid : b.toNat.isValidChar := Or.inl (lt_trans b.toNat_lt (by decide))
      rw [Char.ofNat, dif_pos hvalid]
      exact UInt8.ofNat_toNat
    simp [sampleScalars, Function.comp_def, hbyte]
  uuid uuid := by
    by_cases hsample : uuid = 0
    · subst hsample
      decide
    · have hne := repr_ne_of_parse (s := "00000000-0000-0000-0000-000000000000")
        (by decide) uuid.toNat
      simp only [sampleScalars, if_neg hsample, if_neg hne, Decimal.parse_repr, Option.map_some]
      simp

/-! ### The format -/

/-- Every task and every result is read back, and exactly the events without a hidden field. -/
theorem json_round_trips_iff_unshadowed (hsc : sc.Documented) :
    (∀ v : Event, (∀ t ∈ v.timestamps, t.Rfc3339) →
      ((Event.json sc).RoundTrips v ↔ v.Unshadowed)) ∧
    (∀ v : TaskItem, v.timestamp.Rfc3339 → (TaskItem.json sc).RoundTrips v) ∧
    ∀ v : PublishEventResultItem, PublishEventResultItem.json.RoundTrips v := by
  refine ⟨fun v htimes => ⟨fun h => ?_, fun h => ?_⟩, fun v htime => ?_, fun v => ?_⟩
  · exact unshadowed_of_deserialize h.deserialize
  · exact roundTrips_of_unshadowed hsc htimes h
  · exact roundTrips_taskItem hsc htime
  · exact roundTrips_resultItem v

/-- A message that could not be executed, with a sender outside and one inside. -/
def sampleEvent (outer inner : Option Address) : Event :=
  .cannotExecuteMessageV2
    { base :=
        { eventId := ⟨"event123"⟩
          metadata := some
            { txId := none
              timestamp := some ⟨1726061568, 0⟩
              fromAddress := outer
              finalized := none
              extra := ⟨inner, none, ⟨0⟩⟩ } }
      messageId := ⟨"0x413b6134d65fe844b0d9e541561a5e825240fb4d951e34e5f42806ef9d45c560-0"⟩
      sourceChain := "avalanche-fuji"
      reason := .error
      details := "some details here" }

def sampleTask : TaskItem := ⟨⟨0⟩, ⟨1726061568, 0⟩, .gatewayTx ⟨[]⟩⟩

theorem sampleEvent_timestamps (outer inner : Option Address) :
    ∀ t ∈ (sampleEvent outer inner).timestamps, t.Rfc3339 := by
  intro t ht
  rw [List.mem_singleton.mp (show t ∈ [(⟨1726061568, 0⟩ : DateTime)] from ht)]
  exact ⟨by decide, by decide, by decide⟩

theorem json_round_trips_iff_unshadowed_sender :
    (Event.json sampleScalars).RoundTrips (sampleEvent (some "0xEA12") none) ∧
    ¬ (Event.json sampleScalars).RoundTrips (sampleEvent none (some "0xEA12")) ∧
    (TaskItem.json sampleScalars).RoundTrips sampleTask := by
  obtain ⟨hevents, htasks, -⟩ := json_round_trips_iff_unshadowed sampleScalars_documented
  refine ⟨(hevents _ (sampleEvent_timestamps _ _)).mpr ?_, fun h => ?_, htasks _ ?_⟩
  · rintro m ⟨⟩
    exact ⟨rfl, rfl⟩
  · have hunshadowed := (hevents _ (sampleEvent_timestamps _ _)).mp h
    cases (hunshadowed _ rfl).fromAddress
  · exact ⟨by decide, by decide, by decide⟩

/-- Two senders are written under one key and not read back, and one inside is read as one
outside. -/
theorem json_confuses_senders :
    sampleScalars.Documented ∧
    (∀ outer inner, ∀ t ∈ (sampleEvent outer inner).timestamps, t.Rfc3339) ∧
    ¬ ((Event.json sampleScalars).serialize
      (sampleEvent (some "0xEA12") (some "0xEA12"))).KeysOnce ∧
    (Event.json sampleScalars).deserialize ((Event.json sampleScalars).serialize
      (sampleEvent (some "0xEA12") (some "0xEA12"))) = none ∧
    (Event.json sampleScalars).deserialize
      ((Event.json sampleScalars).serialize (sampleEvent none (some "0xEA12"))) =
        some (sampleEvent (some "0xEA12") none) := by
  refine ⟨sampleScalars_documented, sampleEvent_timestamps, fun h => ?_, ?_, ?_⟩
  · -- the third entry is `meta`, whose object has `fromAddress` twice
    obtain - | - | - | - | - | ⟨-, hvalues⟩ := h
    have hmeta := hvalues _ (List.mem_cons_of_mem _ (List.mem_cons_of_mem _ List.mem_cons_self))
    obtain - | - | - | - | - | ⟨hkeys, -⟩ := hmeta
    exact absurd hkeys (by decide)
  · decide
  · decide

end RelayerCore
