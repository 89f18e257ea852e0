import NemSigner.Proofs.Transaction.Accounts
import NemSigner.Proofs.Transaction.MosaicDefinition
import NemSigner.Proofs.Transaction.Namespaces
import NemSigner.Proofs.Transaction.Transfer
import NemSigner.Transaction.Basic

/-!
# What a review leaves out

Some parts of a transaction are signed without being shown. Blanking them gives the visible part of
the transaction: two transactions agree on everything else when their visible parts are the same.

## Main definitions

- `Header.visible` — a header without reserved bytes, network, timestamp, signer and deadline, and
  without the version of a kind that has only one form
- `Transfer.visible` — a transfer without the amount that mosaics are multiplied by, and without
  what is in an encrypted message
- `AggregateModification.visible`, `MosaicDefinition.visible` — contents with a part that is hidden
- `Transaction.visible` — a transaction without all that is hidden

## Main statements

- `Transaction.visible_fields` — the hidden parts do not change the review fields
-/

namespace NemSigner

/-- The kinds of transactions that have a form for each version. -/
def TransactionKind.hasVersions : TransactionKind → Bool
  | .transfer => true
  | .aggregateModification => true
  | _ => false

/-- What is shown of a header: its type and its fee, and the version where it makes a difference. -/
def Header.visible (kind : TransactionKind) (header : Header) : Header where
  typeNumber := header.typeNumber
  version := if kind.hasVersions then header.version else 0
  reserved := 0
  network := 0
  timestamp := 0
  signer := []
  fee := header.fee
  deadline := 0

/-- Of an encrypted message nothing is shown, and no message is shown like an empty text. -/
def Message.visible : Option Message → Option Message
  | none => none
  | some message =>
    if message.payloadType = plain then if message.payload = [] then none else some message
    else some ⟨0, []⟩

/-- The amount is not shown when there are mosaics. -/
def Transfer.visible (transfer : Transfer) : Transfer where
  recipient := transfer.recipient
  amount :=
    match transfer.mosaics with
    | some (_ :: _) => 0
    | _ => transfer.amount
  message := Message.visible transfer.message
  mosaics := transfer.mosaics

/-- A change that is left out is shown as a change by zero. -/
def RelativeChange.visible : RelativeChange → RelativeChange
  | absent => absent
  | unspecified => delta 0
  | delta amount => delta amount

def AggregateModification.visible (aggregate : AggregateModification) : AggregateModification where
  modifications := aggregate.modifications
  change := aggregate.change.visible

/-- The creator is not shown. -/
def MosaicDefinition.visible (definition : MosaicDefinition) : MosaicDefinition :=
  { definition with creator := [] }

def Action.visible : Action → Action
  | transfer content => transfer content.visible
  | importanceTransfer content => importanceTransfer content
  | aggregateModification content => aggregateModification content.visible
  | cosignature content => cosignature content
  | namespaceProvision content => namespaceProvision content
  | mosaicDefinition content => mosaicDefinition content.visible
  | supplyChange content => supplyChange content

def ActionTransaction.visible (transaction : ActionTransaction) : ActionTransaction where
  header := transaction.header.visible transaction.action.kind
  action := transaction.action.visible

def Content.visible : Content → Content
  | action content => action content.visible
  | multisig carried => multisig (carried.map ActionTransaction.visible)
  | cosigned cosignature carried => cosigned cosignature (carried.map ActionTransaction.visible)

/-- What is shown of a transaction and of those that it carries. -/
def Transaction.visible (transaction : Transaction) : Transaction where
  header := transaction.header.visible transaction.content.kind
  content := transaction.content.visible

theorem Message.visible_shown (message : Option Message) :
    shown (visible message) = shown message := by
  cases message with
  | none => rfl
  | some message =>
    rw [visible]
    by_cases hplain : message.payloadType = plain
    · rw [if_pos hplain]
      by_cases hempty : message.payload = []
      · rw [if_pos hempty, shown, shown, field_plain hplain, hempty]
      · rw [if_neg hempty]
    · rw [if_neg hplain, shown, shown, field_of_ne_plain hplain]
      rfl

@[simp] theorem Transfer.visible_mosaics (transfer : Transfer) :
    transfer.visible.mosaics = transfer.mosaics := rfl

theorem Transfer.visible_fields (fee : Field) (transfer : Transfer) :
    transfer.visible.fields fee = transfer.fields fee := by
  cases hmosaics : transfer.mosaics with
  | none =>
    rw [fields_first hmosaics, fields_first (transfer.visible_mosaics.trans hmosaics)]
    simp only [visible, hmosaics, Message.visible_shown]
  | some mosaics =>
    rw [fields_second hmosaics, fields_second (transfer.visible_mosaics.trans hmosaics)]
    cases mosaics with
    | nil => simp only [visible, hmosaics, Message.visible_shown]
    | cons mosaic mosaics =>
      simp only [visible, hmosaics, Message.visible_shown]
      rfl

theorem AggregateModification.visible_change_ne_absent (aggregate : AggregateModification) :
    aggregate.visible.change ≠ .absent ↔ aggregate.change ≠ .absent := by
  obtain ⟨modifications, change⟩ := aggregate
  cases change <;> simp [visible, RelativeChange.visible]

theorem AggregateModification.visible_fields (fee : Field) (aggregate : AggregateModification) :
    aggregate.visible.fields fee = aggregate.fields fee := by
  obtain ⟨modifications, change⟩ := aggregate
  cases change <;> rfl

theorem Action.visible_fields (fee : Field) (action : Action) :
    action.visible.fields fee = action.fields fee := by
  cases action with
  | transfer content => exact content.visible_fields fee
  | aggregateModification content => exact content.visible_fields fee
  | _ => rfl

theorem ActionTransaction.visible_fields (typeId : FieldId) (transaction : ActionTransaction) :
    transaction.visible.fields typeId = transaction.fields typeId := by
  rw [fields, fields, visible, Action.visible_fields]
  rfl

theorem ActionTransaction.visible_flatMap_fields (typeId : FieldId)
    (carried : List ActionTransaction) :
    (carried.map visible).flatMap (fields typeId) = carried.flatMap (fields typeId) := by
  rw [List.flatMap_map]
  exact congrArg (List.flatMap · carried) (funext (visible_fields typeId))

/-- The hidden parts do not change the review fields. -/
theorem Transaction.visible_fields (transaction : Transaction) :
    transaction.visible.fields = transaction.fields := by
  obtain ⟨header, content⟩ := transaction
  cases content with
  | action action =>
    exact congrArg (_ :: ·) (action.visible_fields header.feeField)
  | multisig carried =>
    exact congrArg (_ :: _ :: ·) (ActionTransaction.visible_flatMap_fields _ carried)
  | cosigned cosignature carried =>
    exact congrArg (fun shown => _ :: (cosignature.fields ++ _ :: shown))
      (ActionTransaction.visible_flatMap_fields _ carried)

end NemSigner
