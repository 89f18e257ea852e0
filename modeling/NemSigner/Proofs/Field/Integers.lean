import NemSigner.Proofs.Field.Value
import NemSigner.Proofs.Printer.Numerals

/-!
# Integers are shown as what they are

What has to be shown of a number is said of the number and not of a routine that prints it. There is
one such text for every number, and it is the value of the field that holds the number, lowest byte
first.

## Main definitions

- `Field.SignedText` — the numeral of an integer
- `Field.IntegerText` — what is shown of a number, by the type and the identifier of its field

## Main statements

- `Field.IntegerText.unique` — there is no choice
- `Field.value_integer` — the value of a field of a number
-/

namespace NemSigner

namespace Field

open Positional (Spells Shortest)

variable {id : FieldId} {type : DataType} {n : Nat} {z : Int} {data text text' buffer : Bytes}

/-- The shortest numeral of the absolute value, behind a minus sign if the number is negative. -/
def SignedText (z : Int) (text : Bytes) : Prop :=
  ∃ digits, Shortest Decimal.alphabet z.natAbs digits ∧
    text = if z < 0 then 0x2d :: digits else digits

/-- What is shown of a number, by the identifier and the type of the field that holds it. -/
inductive IntegerText (id : FieldId) : DataType → Nat → Bytes → Prop
  | byte {n : Nat} {text : Bytes} : Shortest Decimal.alphabet n text → IntegerText id .uint8 n text
  | quantity {n : Nat} {text : Bytes} : Shortest Decimal.alphabet n text →
      IntegerText id .mosaicQuantity n text
  | halfWord {n : Nat} {text : Bytes} : Shortest (Hex.alphabet .lower) n text →
      IntegerText id .uint16 n text
  | doubleWord {n : Nat} {text : Bytes} : id ≠ .duration → Spells (Hex.alphabet .upper) n text →
      text.length = 16 → IntegerText id .uint64 n text
  | unchanged : id = .relativeChange → IntegerText id .uint32 0 (Bytes.ofText "Not change")
  /-- A change is a number of thirty-two bits in two's complement. -/
  | change {n : Nat} {z : Int} {text : Bytes} : id = .relativeChange → n ≠ 0 →
      -2 ^ 31 ≤ z → z < 2 ^ 31 → z % 2 ^ 32 = n → SignedText z text → IntegerText id .uint32 n text
  | unlimited : id = .duration → IntegerText id .uint64 0 (Bytes.ofText "Unlimited")
  /-- A day has twenty-four hours of sixty minutes, and a minute has four blocks. -/
  | duration {n days hours minutes : Nat} {d h m : Bytes} : id = .duration → n ≠ 0 →
      hours < 24 → minutes < 60 → 5760 * days + 240 * hours + 4 * minutes ≤ n →
      n < 5760 * days + 240 * hours + 4 * minutes + 4 → Shortest Decimal.alphabet days d →
      Shortest Decimal.alphabet hours h → Shortest Decimal.alphabet minutes m →
      IntegerText id .uint64 n
        (d ++ Bytes.ofText "d " ++ h ++ Bytes.ofText "h " ++ m ++ Bytes.ofText "m")

/-! ### There is one text for every number -/

theorem decimal_unique (h : Shortest Decimal.alphabet n text)
    (h' : Shortest Decimal.alphabet n text') : text = text' :=
  h.unique h' Decimal.one_lt_length_alphabet

theorem SignedText.unique (h : SignedText z text) (h' : SignedText z text') : text = text' := by
  obtain ⟨digits, hdigits, rfl⟩ := h
  obtain ⟨digits', hdigits', rfl⟩ := h'
  rw [decimal_unique hdigits hdigits']

theorem IntegerText.unique (h : IntegerText id type n text) (h' : IntegerText id type n text') :
    text = text' := by
  cases h with
  | byte h =>
    cases h' with
    | byte h' => exact decimal_unique h h'
  | quantity h =>
    cases h' with
    | quantity h' => exact decimal_unique h h'
  | halfWord h =>
    cases h' with
    | halfWord h' => exact h.unique h' (by decide +kernel)
  | doubleWord hid h hlength =>
    cases h' with
    | doubleWord _ h' hlength' =>
      exact h.unique h' (by decide +kernel) (hlength.trans hlength'.symm)
    | unlimited hid' => exact absurd hid' hid
    | duration hid' => exact absurd hid' hid
  | unchanged =>
    cases h' with
    | unchanged => rfl
    | change _ hn => exact absurd rfl hn
  | @change n z _ _ hn hlow hhigh hword h =>
    cases h' with
    | unchanged => exact absurd rfl hn
    | @change _ z' _ _ _ hlow' hhigh' hword' h' =>
      have hsame : z = z' := by omega
      subst hsame
      exact h.unique h'
  | unlimited hid =>
    cases h' with
    | doubleWord hid' => exact absurd hid hid'
    | unlimited => rfl
    | duration _ hn => exact absurd rfl hn
  | @duration _ days hours minutes _ _ _ hid hn hhours hminutes hle hlt hd hh hm =>
    cases h' with
    | doubleWord hid' => exact absurd hid hid'
    | unlimited => exact absurd rfl hn
    | @duration _ days' hours' minutes' _ _ _ _ _ hhours' hminutes' hle' hlt' hd' hh' hm' =>
      have hdays : days = days' := by omega
      subst hdays
      have hsame : hours = hours' := by omega
      subst hsame
      have hrest : minutes = minutes' := by omega
      subst hrest
      rw [decimal_unique hd hd', decimal_unique hh hh', decimal_unique hm hm']

/-! ### The value is that text -/

theorem fits_iff {field : Field} :
    field.fits = true ↔ ∀ count ∈ field.type.fixedLength, field.data.length = count := by
  rw [fits]
  split
  · next count hcount => simp [hcount]
  · next hcount => simp [hcount]

theorem make?_eq_ok {field : Field} : make? id type data = .ok field ↔
    field = ⟨id, type, data⟩ ∧ ∀ count ∈ type.fixedLength, data.length = count := by
  rw [make?, ← @fits_iff ⟨id, type, data⟩]
  by_cases hfits : (⟨id, type, data⟩ : Field).fits = true
  · simp [hfits, eq_comm]
  · simp [hfits]

theorem signed_signedText (z : Int) : SignedText z (Decimal.signed z) := by
  cases z with
  | ofNat n =>
    have hpositive : ¬(Int.ofNat n < 0) := Int.not_lt.mpr (Int.natCast_nonneg n)
    exact ⟨Decimal.numeral n, Decimal.numeral_shortest n, (if_neg hpositive).symm⟩
  | negSucc n =>
    exact ⟨Decimal.numeral (n + 1), Decimal.numeral_shortest (n + 1),
      (if_pos (Int.negSucc_lt_zero n)).symm⟩

/-- A number of thirty-two bits and the integer that it stands for differ by a multiple of their
size. -/
theorem signedWord_spec (h : n < UInt32.size) :
    -2 ^ 31 ≤ signedWord n ∧ signedWord n < 2 ^ 31 ∧ signedWord n % 2 ^ 32 = n := by
  simp only [signedWord, UInt32.size] at h ⊢
  split <;> omega

theorem wordText_change (h : n < UInt32.size) :
    IntegerText .relativeChange .uint32 n (wordText .relativeChange n) := by
  by_cases hn : n = 0
  · subst hn
    exact .unchanged rfl
  · obtain ⟨hlow, hhigh, hword⟩ := signedWord_spec h
    have htext : wordText .relativeChange n = Decimal.signed (signedWord n) := by
      cases n with
      | zero => exact absurd rfl hn
      | succ n => rfl
    rw [htext]
    exact .change rfl hn hlow hhigh hword (signed_signedText _)

theorem durationText_duration (n : Nat) : IntegerText .duration .uint64 n (durationText n) := by
  rw [durationText]
  split
  · next hn =>
    subst hn
    exact .unlimited rfl
  · next hn =>
    simp only [blocksPerDay, blocksPerHour, blocksPerMinute]
    apply IntegerText.duration rfl hn _ _ _ _ (Decimal.numeral_shortest _)
      (Decimal.numeral_shortest _) (Decimal.numeral_shortest _)
    · omega
    · omega
    · omega
    · omega

/-- Bytes that are as many as a number needs are read as that number. -/
theorem printRead_number {width : Nat} (hlength : data.length = width) (print : Nat → Printer) :
    printRead data (Cursor.readUInt width) print = print (Bytes.toNatLE data) := by
  have hread := printRead_encode (Cursor.readUInt_inverts width) (Bytes.toNatLE_lt_bound hlength)
    print
  rwa [Bytes.ofNatLE_toNatLE_of_length hlength] at hread

/-- A number of eight bytes or fewer. -/
theorem toNatLE_lt_size {width : Nat} (hlength : data.length = width)
    (hwidth : Bytes.bound width ≤ UInt64.size) : Bytes.toNatLE data < UInt64.size :=
  Nat.lt_of_lt_of_le (Bytes.toNatLE_lt_bound hlength) hwidth

/-- Bytes and quantities are shown as decimal numerals. -/
theorem value_decimal {width : Nat} (hdata : data.length = width)
    (hwidth : Bytes.bound width ≤ UInt64.size) {network : Network}
    (hprint : print ⟨id, type, data⟩ network =
      printRead data (Cursor.readUInt width) Printer.decimal)
    (hbuffer : 64 ≤ buffer.length) :
    value ⟨id, type, data⟩ network buffer = .ok (Decimal.numeral (Bytes.toNatLE data)) :=
  value_eq_of_text (hprint.trans (printRead_number hdata Printer.decimal))
    (numeral_whole (toNatLE_lt_size hdata hwidth)) hbuffer

theorem value_halfWord (id : FieldId) (network : Network) (hdata : data.length = 2)
    (hbuffer : 64 ≤ buffer.length) :
    value ⟨id, .uint16, data⟩ network buffer =
      .ok (Pen.withoutZero (Pen.numeralDigits (Bytes.toNatLE data))) := by
  have hlt := toNatLE_lt_size hdata (by decide)
  have hlength := Hex.length_numeralDigits_le hlt
  have hprint : print ⟨id, .uint16, data⟩ network = Printer.hexNumeral (Bytes.toNatLE data) :=
    printRead_number hdata Printer.hexNumeral
  have hrun := Pen.run_hexNumeral (Bytes.toNatLE data) buffer
  rw [if_pos (by omega), ← hprint] at hrun
  rw [value_of_run hrun, spaced, if_neg (Hex.numeral_shortest hlt).ne_nil]

theorem value_doubleWord (hid : id ≠ .duration) (network : Network) (hdata : data.length = 8)
    (hbuffer : 64 ≤ buffer.length) :
    value ⟨id, .uint64, data⟩ network buffer = .ok (Hex.encode .upper data.reverse) := by
  have hne : data ≠ [] := List.ne_nil_of_length_pos (by omega)
  have hempty : data.isEmpty = false := List.isEmpty_eq_false_iff.mpr hne
  have hprint : print ⟨id, .uint64, data⟩ network =
      Printer.text (Hex.encode .upper data.reverse) := by
    have hhex : print ⟨id, .uint64, data⟩ network = Printer.hex .upper true data := by
      dsimp only [print]
      split
      · exact absurd rfl hid
      · rfl
    rw [hhex, Printer.hex, hempty]
    rfl
  have hwhole : Whole (Hex.encode .upper data.reverse) :=
    digits_whole (mt List.reverse_eq_nil_iff.mp hne) (by rw [List.length_reverse]; omega)
  exact value_eq_of_text hprint hwhole hbuffer

theorem value_change (network : Network) (hdata : data.length = 4)
    (hbuffer : 64 ≤ buffer.length) :
    value ⟨.relativeChange, .uint32, data⟩ network buffer =
      .ok (wordText .relativeChange (Bytes.toNatLE data)) :=
  value_eq_of_text (printRead_number hdata _)
    (wordText_whole .relativeChange (Bytes.toNatLE_lt_bound hdata)) hbuffer

theorem value_duration (network : Network) (hdata : data.length = 8)
    (hbuffer : 64 ≤ buffer.length) :
    value ⟨.duration, .uint64, data⟩ network buffer =
      .ok (durationText (Bytes.toNatLE data)) :=
  value_eq_of_text (printRead_number hdata _)
    (durationText_whole (toNatLE_lt_size hdata (by decide))) hbuffer

/-- The value of a field of a number is the text for that number, which is written in the field
lowest byte first. This is so for bytes, for numbers of sixteen and sixty-four bits, for quantities
of mosaics and, of the numbers of thirty-two bits, for changes of the number of cosignatories. -/
theorem value_integer {field : Field} (hmake : make? id type data = .ok field)
    (hinteger : type ∈ [.uint8, .uint16, .uint64, .mosaicQuantity] ∨
      type = .uint32 ∧ id = .relativeChange)
    (network : Network) (hbuffer : 64 ≤ buffer.length) :
    ∃ text, field.value network buffer = .ok text ∧
      ∀ text', IntegerText id type (Bytes.toNatLE data) text' ↔ text' = text := by
  suffices hvalue : ∃ text, field.value network buffer = .ok text ∧
      IntegerText id type (Bytes.toNatLE data) text by
    obtain ⟨text, hvalue, htext⟩ := hvalue
    refine ⟨text, hvalue, fun text' => ⟨fun h => h.unique htext, ?_⟩⟩
    rintro rfl
    exact htext
  obtain ⟨rfl, hfits⟩ := make?_eq_ok.mp hmake
  have hlength (count : Nat) (hcount : type.fixedLength = some count) : data.length = count :=
    hfits count hcount
  simp only [List.mem_cons, List.not_mem_nil, or_false] at hinteger
  rcases hinteger with (rfl | rfl | rfl | rfl) | ⟨rfl, rfl⟩
  · exact ⟨_, value_decimal (hlength 1 rfl) (by decide) rfl hbuffer,
      .byte (Decimal.numeral_shortest _)⟩
  · have hlt := toNatLE_lt_size (hlength 2 rfl) (by decide)
    have hvalue := value_halfWord id network (hlength 2 rfl) hbuffer
    exact ⟨_, hvalue, .halfWord (Hex.numeral_shortest hlt)⟩
  · by_cases hid : id = .duration
    · subst hid
      exact ⟨_, value_duration network (hlength 8 rfl) hbuffer, durationText_duration _⟩
    · refine ⟨_, value_doubleWord hid network (hlength 8 rfl) hbuffer, .doubleWord hid ?_ ?_⟩
      · have hspells := Hex.encode_spells .upper data.reverse
        rwa [Bytes.toNatBE, List.reverse_reverse] at hspells
      · rw [Hex.length_encode, List.length_reverse, hlength 8 rfl]
  · exact ⟨_, value_decimal (hlength 8 rfl) (by decide) rfl hbuffer,
      .quantity (Decimal.numeral_shortest _)⟩
  · exact ⟨_, value_change network (hlength 4 rfl) hbuffer,
      wordText_change (Bytes.toNatLE_lt_bound (hlength 4 rfl))⟩

/-- The least change, whose absolute value is no number of thirty-two bits with a sign. -/
theorem value_integer_least :
    let field : Field := ⟨.relativeChange, .uint32, [0x00, 0x00, 0x00, 0x80]⟩
    make? .relativeChange .uint32 [0x00, 0x00, 0x00, 0x80] = .ok field ∧
      field.value .mainnet (List.replicate 64 0x00) = .ok (Bytes.ofText "-2147483648") ∧
      ∀ text, IntegerText .relativeChange .uint32 (2 ^ 31) text ↔
        text = Bytes.ofText "-2147483648" := by
  intro field
  have hmake : make? .relativeChange .uint32 [0x00, 0x00, 0x00, 0x80] = .ok field := rfl
  have hbuffer : 64 ≤ (List.replicate 64 0x00 : Bytes).length := by decide
  have hshown : field.value .mainnet (List.replicate 64 0x00) =
      .ok (Bytes.ofText "-2147483648") := by
    rw [value_change .mainnet rfl hbuffer]
    apply congrArg Except.ok
    decide +kernel
  obtain ⟨text, hvalue, htext⟩ := value_integer hmake (.inr ⟨rfl, rfl⟩) .mainnet hbuffer
  rw [hshown] at hvalue
  cases hvalue
  exact ⟨hmake, hshown, htext⟩

end Field

end NemSigner
