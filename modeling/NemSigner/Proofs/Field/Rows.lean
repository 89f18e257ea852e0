import NemSigner.Field.Table
import NemSigner.Proofs.Field.Label
import NemSigner.Proofs.Field.Value

/-!
# What the rows on the screen tell

The user sees one row for each field: a label and a value. The label tells the type of the field and
what it means, and the text of an amount, of a hash or of a number tells the bytes it was made from.
So two transactions that look the same to the user move the same money.

## Main definitions

- `Field.row`, `FieldTable.rows` — what stands on the screen
- `Field.Exact` — fields whose value tells their bytes

## Main statements

- `Field.wordText_inj` — the texts of numbers tell the numbers
- `Field.Reviewable.data_eq_of_value` — the value of an exact field tells its bytes
- `FieldTable.exact_of_rows` — the rows of a table tell its exact fields
-/

namespace NemSigner

/-- The buffers for the label and the value of one field. -/
structure Screen where
  label : Bytes
  value : Bytes

namespace Field

/-- The label and the value of a field as they fill the buffers of a screen. -/
def row (field : Field) (network : Network) (screen : Screen) :
    Except DecodeError (Bytes × Bytes) := do
  let value ← field.value network screen.value
  return (field.label screen.label, value)

/-- Amounts, hashes and the numbers that are shown as such or stand for one of a few choices that
decoding insists on. The two other choices can be made by any number. -/
def Exact (field : Field) : Prop :=
  field.type = .xem ∨ field.type = .mosaicQuantity ∨ field.type = .hash256 ∨
    (field.type = .uint32 ∧ field.id ≠ .importanceMode ∧ field.id ≠ .modificationType)

theorem Exact.type_ne {field : Field} (h : field.Exact) :
    field.type ≠ .message ∧ field.type ≠ .text := by
  rcases h with h | h | h | ⟨h, -⟩ <;> simp [h]

end Field

/-- The rows of a table, one screen after the other. -/
def FieldTable.rows (table : FieldTable) (network : Network) (screens : Nat → Screen) :
    Except DecodeError (List (Bytes × Bytes)) :=
  table.toList.zipIdx.mapM fun (field, index) => field.row network (screens index)

namespace Field

variable {id : FieldId} {network network' : Network} {buffer buffer' shown : Bytes}

/-! ### Numbers -/

theorem kindLabel_inj : ∀ kind ∈ (Coded.all : List TransactionKind),
    ∀ kind' ∈ (Coded.all : List TransactionKind),
      Bytes.ofText kind.label = Bytes.ofText kind'.label → kind = kind' := by
  decide +kernel

theorem kindText_code (kind : TransactionKind) : kindText (Coded.code kind) = kind.label := by
  rw [kindText, TransactionKind.ofCode?_eq_some.mpr rfl]

theorem kindText_inj {kind kind' : TransactionKind}
    (h : Bytes.ofText (kindText (Coded.code kind)) = Bytes.ofText (kindText (Coded.code kind'))) :
    kind = kind' := by
  rw [kindText_code, kindText_code] at h
  have hmem (kind : TransactionKind) : kind ∈ (Coded.all : List TransactionKind) := by
    cases kind <;> decide
  exact kindLabel_inj kind (hmem kind) kind' (hmem kind') h

theorem signedWord_inj {n m : Nat} (hn : n < UInt32.size) (hm : m < UInt32.size)
    (h : signedWord n = signedWord m) : n = m := by
  simp only [signedWord, UInt32.size] at hn hm h
  split at h <;> split at h <;> omega

/-- A change by something is a number, which no text of letters is. -/
theorem notChange_ne_signed (z : Int) : Bytes.ofText "Not change" ≠ Decimal.signed z := by
  intro h
  have hletter : 0x4e ∈ Decimal.signed z := by
    rw [← h]
    decide +kernel
  have hdigit := Decimal.isDigit_of_mem_signed hletter (by decide)
  exact absurd hdigit.2 (by decide)

/-- A number that stands for a kind of transaction or of a levy stands for a known one. -/
structure Known (id : FieldId) (n : Nat) : Prop where
  kind : id ∈ kindIds → ∃ kind : TransactionKind, n = Coded.code kind
  levyType : id = .levyFeeType → n = 1 ∨ n = 2

/-- The text of a number tells the number. -/
theorem wordText_inj {n m : Nat} (hn : n < UInt32.size) (hm : m < UInt32.size) (hknown : Known id n)
    (hknown' : Known id m) (hmode : id ≠ .importanceMode) (hmodification : id ≠ .modificationType)
    (h : wordText id n = wordText id m) : n = m := by
  have hkind (hid : id ∈ kindIds)
      (htext : Bytes.ofText (kindText n) = Bytes.ofText (kindText m)) : n = m := by
    obtain ⟨kind, rfl⟩ := hknown.kind hid
    obtain ⟨kind', rfl⟩ := hknown'.kind hid
    rw [kindText_inj htext]
  cases id with
  | mosaicCount => exact Decimal.numeral_inj (List.append_cancel_left h)
  | transactionType => exact hkind (by decide) h
  | innerTransactionType => exact hkind (by decide) h
  | detailTransactionType => exact hkind (by decide) h
  | importanceMode => exact absurd rfl hmode
  | modificationType => exact absurd rfl hmodification
  | relativeChange =>
    cases n with
    | zero =>
      cases m with
      | zero => rfl
      | succ m => exact absurd h (notChange_ne_signed _)
    | succ n =>
      cases m with
      | zero => exact absurd h.symm (notChange_ne_signed _)
      | succ m => exact signedWord_inj hn hm (Decimal.signed_inj h)
  | levyFeeType =>
    have hdiffer : Bytes.ofText "Absolute" ≠ Bytes.ofText "Percentile" := by decide +kernel
    rcases hknown.levyType rfl with rfl | rfl <;> rcases hknown'.levyType rfl with rfl | rfl
    · rfl
    · exact absurd h hdiffer
    · exact absurd h.symm hdiffer
    · rfl
  | _ => exact Decimal.numeral_inj h

/-! ### Values -/

namespace Reviewable

variable {field field' : Field}

theorem exists_word (h : field.Reviewable) (htype : field.type = .uint32) :
    ∃ n, n < UInt32.size ∧ Known field.id n ∧ field.data = Bytes.ofNatLE 4 n := by
  have hwords : ∀ id ∈ wordIds, id ∉ kindIds ∧ id ≠ .levyFeeType := by decide
  have hkinds : ∀ id ∈ kindIds, id ≠ .levyFeeType := by decide
  cases h with
  | kind hid kind =>
    refine ⟨Coded.code kind, kind.code_lt, ⟨fun _ => ⟨kind, rfl⟩, ?_⟩, rfl⟩
    exact fun hlevy => absurd hlevy (hkinds _ hid)
  | @levyType type hknown =>
    refine ⟨type.toNat, type.toNat_lt, ⟨fun hid => absurd rfl (hkinds _ hid), fun _ => ?_⟩, rfl⟩
    rcases hknown with rfl | rfl
    · exact .inl rfl
    · exact .inr rfl
  | word hid number =>
    obtain ⟨hkind, hlevy⟩ := hwords _ hid
    exact ⟨number.toNat, number.toNat_lt,
      ⟨fun hid => absurd hid hkind, fun hid => absurd hid hlevy⟩, rfl⟩
  | _ => cases htype

theorem exists_amount (h : field.Reviewable)
    (htype : field.type = .xem ∨ field.type = .mosaicQuantity) :
    ∃ amount : UInt64, field.data = Bytes.ofNatLE 8 amount.toNat := by
  cases h with
  | xem hid amount => exact ⟨amount, rfl⟩
  | quantity hid amount => exact ⟨amount, rfl⟩
  | _ => rcases htype with htype | htype <;> cases htype

theorem length_hash (h : field.Reviewable) (htype : field.type = .hash256) :
    field.data.length = 32 := by
  cases h with
  | hash hid hlength => exact hlength
  | _ => cases htype

end Reviewable

/-- Two values that are shown whole are the same only for the same text. -/
theorem text_eq_of_value {field field' : Field} {content content' : Bytes}
    (hprint : field.print network = Printer.text content) (hwhole : Whole content)
    (hprint' : field'.print network' = Printer.text content') (hwhole' : Whole content')
    (hbuffer : 64 ≤ buffer.length) (hbuffer' : 64 ≤ buffer'.length)
    (hvalue : field.value network buffer = .ok shown)
    (hvalue' : field'.value network' buffer' = .ok shown) : content = content' := by
  rw [value_eq_of_text hprint hwhole hbuffer] at hvalue
  rw [value_eq_of_text hprint' hwhole' hbuffer'] at hvalue'
  cases hvalue
  cases hvalue'
  rfl

/-- The value of an exact field tells its bytes. -/
theorem Reviewable.data_eq_of_value {field field' : Field} (h : field.Reviewable)
    (h' : field'.Reviewable) (hexact : field.Exact) (htype : field.type = field'.type)
    (hid : field.id = field'.id) (hbuffer : 64 ≤ buffer.length) (hbuffer' : 64 ≤ buffer'.length)
    (hvalue : field.value network buffer = .ok shown)
    (hvalue' : field'.value network' buffer' = .ok shown) : field.data = field'.data := by
  obtain ⟨id, type, data⟩ := field
  obtain ⟨id', type', data'⟩ := field'
  dsimp only at htype hid
  subst htype hid
  rcases hexact with rfl | rfl | rfl | ⟨rfl, hmode, hmodification⟩
  · obtain ⟨amount, hdata⟩ := h.exists_amount (.inl rfl)
    obtain ⟨amount', hdata'⟩ := h'.exists_amount (.inl rfl)
    dsimp only at hdata hdata' ⊢
    subst hdata hdata'
    have htext := text_eq_of_value (print_xem id network amount.toNat_lt)
      (xemText_whole id amount.toNat_lt) (print_xem id network' amount'.toNat_lt)
      (xemText_whole id amount'.toNat_lt) hbuffer hbuffer' hvalue hvalue'
    rw [Decimal.amount_inj (List.append_cancel_right htext)]
  · obtain ⟨amount, hdata⟩ := h.exists_amount (.inr rfl)
    obtain ⟨amount', hdata'⟩ := h'.exists_amount (.inr rfl)
    dsimp only at hdata hdata' ⊢
    subst hdata hdata'
    have htext := text_eq_of_value (print_quantity id network amount.toNat_lt)
      (numeral_whole amount.toNat_lt) (print_quantity id network' amount'.toNat_lt)
      (numeral_whole amount'.toNat_lt) hbuffer hbuffer' hvalue hvalue'
    rw [Decimal.numeral_inj htext]
  · have hlength := h.length_hash rfl
    have hlength' := h'.length_hash rfl
    have htext := text_eq_of_value (print_hash id network hlength) (hash_whole hlength)
      (print_hash id network' hlength') (hash_whole hlength') hbuffer hbuffer' hvalue hvalue'
    exact Hex.encode_inj htext
  · obtain ⟨n, hn, hknown, hdata⟩ := h.exists_word rfl
    obtain ⟨m, hm, hknown', hdata'⟩ := h'.exists_word rfl
    dsimp only at hdata hdata' ⊢
    subst hdata hdata'
    have htext := text_eq_of_value (print_word id network hn) (wordText_whole id hn)
      (print_word id network' hm) (wordText_whole id hm) hbuffer hbuffer' hvalue hvalue'
    rw [wordText_inj hn hm hknown hknown' hmode hmodification htext]

/-! ### Rows -/

theorem row_eq_ok {field : Field} {screen : Screen} {shown : Bytes × Bytes} :
    field.row network screen = .ok shown ↔
      field.label screen.label = shown.1 ∧ field.value network screen.value = .ok shown.2 := by
  obtain ⟨label, value⟩ := shown
  rw [row]
  cases field.value network screen.value with
  | error error => simp [bind, Except.bind]
  | ok value' => simp [bind, Except.bind, pure, Except.pure]

end Field

namespace FieldTable

/-- The rows of a list are those of its items, in order. -/
theorem mapM_getElem? {α β ε : Type} {render : α → Except ε β} {items : List α} {rows : List β}
    (h : items.mapM render = .ok rows) :
    rows.length = items.length ∧
      ∀ (index : Nat) (item : α), items[index]? = some item →
        ∃ shown, rows[index]? = some shown ∧ render item = .ok shown := by
  induction items generalizing rows with
  | nil =>
    cases h
    exact ⟨rfl, nofun⟩
  | cons item items ih =>
    rw [List.mapM_cons] at h
    cases hhead : render item with
    | error error =>
      rw [hhead] at h
      cases h
    | ok shown =>
      cases htail : items.mapM render with
      | error error =>
        rw [hhead, htail] at h
        cases h
      | ok others =>
        rw [hhead, htail] at h
        cases h
        obtain ⟨hlength, hothers⟩ := ih htail
        refine ⟨congrArg (· + 1) hlength, fun index other hother => ?_⟩
        cases index with
        | zero =>
          cases hother
          exact ⟨shown, rfl, hhead⟩
        | succ index => exact hothers index other hother

variable {table table' : FieldTable} {network network' : Network} {screens screens' : Nat → Screen}
  {rows : List (Bytes × Bytes)}

theorem row_of_rows (h : table.rows network screens = .ok rows) :
    rows.length = table.length ∧
      ∀ (index : Nat) (field : Field), table.toList[index]? = some field →
        ∃ shown, rows[index]? = some shown ∧ field.row network (screens index) = .ok shown := by
  obtain ⟨hlength, hrows⟩ := mapM_getElem? h
  refine ⟨by rw [hlength, List.length_zipIdx, length], fun index field hfield => ?_⟩
  refine hrows index (field, index) ?_
  rw [List.getElem?_zipIdx, hfield, Option.map_some, Nat.zero_add]

/-- Two tables that are decoded and shown by the same rows are equally long and have the same types,
and the exact fields are the same. What is shown must not depend on the names of properties, which
the transaction chooses, and values must have room for sixty-four bytes. -/
theorem exact_of_rows {data data' : Bytes} (htable : Transaction.decode data = .ok table)
    (htable' : Transaction.decode data' = .ok table')
    (hproperty : ∀ field ∈ table.toList, field.type ≠ .property)
    (hproperty' : ∀ field ∈ table'.toList, field.type ≠ .property)
    (hscreens : ∀ index, 64 ≤ (screens index).value.length)
    (hscreens' : ∀ index, 64 ≤ (screens' index).value.length)
    (hrows : table.rows network screens = .ok rows)
    (hrows' : table'.rows network' screens' = .ok rows) :
    table.length = table'.length ∧
      ∀ (index : Nat) (field field' : Field), table.toList[index]? = some field →
        table'.toList[index]? = some field' →
        field.type = field'.type ∧
          (field.Exact → field.id = field'.id ∧ field.data = field'.data) := by
  obtain ⟨hlength, hrow⟩ := row_of_rows hrows
  obtain ⟨hlength', hrow'⟩ := row_of_rows hrows'
  refine ⟨hlength.symm.trans hlength', fun index field field' hfield hfield' => ?_⟩
  obtain ⟨shown, hshown, hfieldRow⟩ := hrow index field hfield
  obtain ⟨shown', hshown', hfieldRow'⟩ := hrow' index field' hfield'
  obtain rfl : shown = shown' := Option.some.inj (hshown.symm.trans hshown')
  obtain ⟨hlabel, hvalue⟩ := Field.row_eq_ok.mp hfieldRow
  obtain ⟨hlabel', hvalue'⟩ := Field.row_eq_ok.mp hfieldRow'
  have hmem := List.mem_of_getElem? hfield
  have hmem' := List.mem_of_getElem? hfield'
  have hreviewable := Transaction.reviewable_of_decode htable field hmem
  have hreviewable' := Transaction.reviewable_of_decode htable' field' hmem'
  obtain ⟨htype, hid⟩ := hreviewable.shape_eq_of_label hreviewable' (hproperty field hmem)
    (hproperty' field' hmem') (hlabel.trans hlabel'.symm)
  refine ⟨htype, fun hexact => ?_⟩
  have hsame : field.id = field'.id := hid hexact.type_ne.1 hexact.type_ne.2
  exact ⟨hsame, hreviewable.data_eq_of_value hreviewable' hexact htype hsame (hscreens index)
    (hscreens' index) hvalue hvalue'⟩

/-- Screens with no room for a label from a transaction and just enough for a value. -/
def narrow (_ : Nat) : Screen :=
  ⟨[], List.replicate 64 0x00⟩

/-- A transaction with one modification. -/
def modified (type : UInt32) : Transaction :=
  .modifying [⟨type, List.replicate Limits.publicKeyLength 0xab⟩]

def modifiedTable (type : UInt32) : FieldTable :=
  ⟨(modified type).fields, show 5 ≤ Limits.maxFieldCount by decide⟩

theorem decode_modified (type : UInt32) :
    Transaction.decode (modified type).encode = .ok (modifiedTable type) := by
  have hvalid : (modified type).WellFormed :=
    Transaction.modifying_wellFormed (show 1 < UInt32.size by decide)
      (List.forall_mem_singleton.mpr rfl)
  rw [Transaction.decode_encode hvalid, FieldTable.ofFields_eq_ok]
  rfl

/-- What is shown of it when the type of the modification is no known one. -/
def modifiedRows : List (Bytes × Bytes) :=
  [("Transaction Type", "Modify Multisig Aggregate TX"), ("Cosignatory Num", "1"),
   ("Mod. Type", "Unknown"),
   ("Cosignatory PbK", "ABABABABABABABABABABABABABABABABABABABABABABABABABABABABABABABAB"),
   ("Fee", "0 XEM")].map fun (label, value) => (Bytes.ofText label, Bytes.ofText value)

/-- Two types of modification that nobody knows look the same, on any network. The key does not. -/
theorem exact_of_rows_modified :
    modifiedTable 3 ≠ modifiedTable 4 ∧
      (modifiedTable 3).rows .mainnet narrow = .ok modifiedRows ∧
      (modifiedTable 4).rows .testnet narrow = .ok modifiedRows ∧
      (modifiedTable 3).length = (modifiedTable 4).length ∧
      ∀ (index : Nat) (field field' : Field), (modifiedTable 3).toList[index]? = some field →
        (modifiedTable 4).toList[index]? = some field' →
        field.type = field'.type ∧
          (field.Exact → field.id = field'.id ∧ field.data = field'.data) := by
  have hroom (index : Nat) : 64 ≤ (narrow index).value.length := Nat.le_refl 64
  have hrows : (modifiedTable 3).rows .mainnet narrow = .ok modifiedRows := by rfl
  have hrows' : (modifiedTable 4).rows .testnet narrow = .ok modifiedRows := by rfl
  exact ⟨by decide +kernel, hrows, hrows', exact_of_rows (decode_modified 3) (decode_modified 4)
    (by decide) (by decide) hroom hroom hrows hrows'⟩

end FieldTable

end NemSigner
