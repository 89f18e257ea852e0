import NemSigner.Printer.Hex
import NemSigner.Proofs.Printer.Sanitised

/-!
# Hexadecimal digits tell their bytes

## Main statements

- `Hex.length_encode`, `Hex.encode_printable` — two digits for every byte, which can be shown
- `Hex.encode_inj` — different bytes have different digits
-/

namespace NemSigner

namespace Hex

variable {letters : LetterCase}

theorem digit_inj : ∀ letters, ∀ value < 16, ∀ value' < 16,
    digit letters value = digit letters value' → value = value' := by
  rintro (_ | _) <;> decide

theorem digit_printable : ∀ letters, ∀ value < 16,
    Bytes.isPrintable (digit letters value) = true := by
  rintro (_ | _) <;> decide

theorem high_lt (byte : UInt8) : byte.toNat / 16 < 16 := by
  have hbyte := byte.toNat_lt
  omega

theorem low_lt (byte : UInt8) : byte.toNat % 16 < 16 :=
  Nat.mod_lt _ (by decide)

theorem encodeByte_inj {byte byte' : UInt8}
    (h : encodeByte letters byte = encodeByte letters byte') : byte = byte' := by
  simp only [encodeByte, List.cons.injEq, and_true] at h
  have hhigh := digit_inj letters _ (high_lt byte) _ (high_lt byte') h.1
  have hlow := digit_inj letters _ (low_lt byte) _ (low_lt byte') h.2
  apply UInt8.toNat_inj.mp
  omega

@[simp] theorem length_encode (letters : LetterCase) (data : Bytes) :
    (encode letters data).length = 2 * data.length := by
  induction data with
  | nil => rfl
  | cons byte rest ih =>
    rw [encode, List.flatMap_cons, List.length_append, ← encode, ih, List.length_cons]
    simp only [encodeByte, List.length_cons, List.length_nil]
    omega

theorem encode_printable (letters : LetterCase) (data : Bytes) :
    Bytes.Printable (encode letters data) := by
  intro digit hdigit
  obtain ⟨byte, -, hbyte⟩ := List.mem_flatMap.mp hdigit
  simp only [encodeByte, List.mem_cons, List.not_mem_nil, or_false] at hbyte
  rcases hbyte with rfl | rfl
  · exact digit_printable letters _ (high_lt byte)
  · exact digit_printable letters _ (low_lt byte)

/-- Different bytes have different digits. -/
theorem encode_inj {data data' : Bytes} (h : encode letters data = encode letters data') :
    data = data' := by
  induction data generalizing data' with
  | nil =>
    cases data' with
    | nil => rfl
    | cons byte' rest' => cases h
  | cons byte rest ih =>
    cases data' with
    | nil => cases h
    | cons byte' rest' =>
      have happend : encodeByte letters byte ++ encode letters rest =
          encodeByte letters byte' ++ encode letters rest' := h
      obtain ⟨hbyte, hrest⟩ := List.append_inj happend rfl
      rw [encodeByte_inj hbyte, ih hrest]

end Hex

end NemSigner
