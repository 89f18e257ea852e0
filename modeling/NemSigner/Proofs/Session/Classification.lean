import NemSigner.Proofs.Apdu.Codecs
import NemSigner.Proofs.Session.Command

/-!
# How commands are answered

The answer to every command, written down without the routines that read it. A first chunk is looked
at from front to back: a depth that no path has is reported before bytes that are missing.

## Main definitions

- `Event.FirstChunk` — what the bytes of a first chunk are taken for
- `Event.Classified` — what a command is taken for

## Main statements

- `Event.Classified.ofCommand_eq`, `Event.exists_classified` — the reading of commands gives these
  answers, and there is one for every command
- `Event.ofCommand_classified` — every command is taken for what it is
-/

namespace NemSigner

/-- The bits of a parameter that are known are the lowest and the highest. -/
theorem SignFlags.ofByte_eq_testBit (parameter : UInt8) :
    ofByte parameter = ⟨parameter.toNat.testBit 0, parameter.toNat.testBit 7⟩ := by
  revert parameter
  exact forall_byte (by decide +kernel)

/-- The bits of a parameter that are not known make no difference. -/
theorem SignFlags.ofByte_and_knownBits (parameter : UInt8) :
    ofByte (parameter &&& knownBits) = ofByte parameter := by
  rw [← toByte_ofByte, ofByte_toByte]

namespace DerivationPath

variable {depth : UInt8} {rest : Bytes}

theorem decode_impossible (rest : Bytes) (h : depth.toNat = 0 ∨ 5 < depth.toNat) :
    decode (depth :: rest) = .error .invalidEncoding := by
  rw [decode]
  by_cases hzero : depth.toNat = 0
  · rw [if_pos hzero]
  · have hdeep : ¬depth.toNat ≤ Limits.maxPathDepth := by
      rw [Limits.maxPathDepth]
      omega
    rw [if_neg hzero, dif_neg hdeep]

theorem decode_short (hpositive : 1 ≤ depth.toNat) (hdepth : depth.toNat ≤ 5)
    (hshort : (depth :: rest).length < 1 + 4 * depth.toNat) :
    decode (depth :: rest) = .error .invalidLength := by
  rw [List.length_cons] at hshort
  have hroom : rest.length < 4 * depth.toNat := by omega
  have hfits : depth.toNat ≤ Limits.maxPathDepth := hdepth
  rw [decode, if_neg (Nat.ne_of_gt hpositive), dif_pos hfits, if_pos hroom]

/-- Behind a depth with all its elements nothing more is read. -/
theorem decode_whole {path : DerivationPath} (hpositive : 1 ≤ depth.toNat)
    (hdepth : path.elements.length = depth.toNat) (rest : Bytes) :
    decode (depth :: (path.elements.flatMap fun element => Bytes.ofNatBE 4 element.toNat) ++ rest) =
      .ok (path, path.encodedLength) := by
  have hnamed : path.elements ≠ [] := List.length_pos_iff.mp (by omega)
  have hbyte : path.depth.toUInt8 = depth := by
    rw [DerivationPath.depth, hdepth]
    simp
  rw [← hbyte]
  exact decode_toBytes hnamed rest

end DerivationPath

namespace Event

variable {instruction parameter : UInt8} {data : Bytes} {more : Bool}
  {answer : Except SessionError Event}

/-- What the bytes of a first chunk are taken for: nothing at all, a path that is too shallow or too
deep, the beginning of a path, or a path and the data behind it. -/
inductive FirstChunk (more : Bool) : Bytes → Except SessionError Event → Prop
  | empty : FirstChunk more [] (.error .invalidLength)
  | impossible {depth : UInt8} (rest : Bytes) : depth.toNat = 0 ∨ 5 < depth.toNat →
      FirstChunk more (depth :: rest) (.error .invalidPath)
  | short {depth : UInt8} {rest : Bytes} : 1 ≤ depth.toNat → depth.toNat ≤ 5 →
      (depth :: rest).length < 1 + 4 * depth.toNat →
      FirstChunk more (depth :: rest) (.error .invalidLength)
  | whole {depth : UInt8} (path : DerivationPath) (rest : Bytes) : 1 ≤ depth.toNat →
      path.elements.length = depth.toNat →
      FirstChunk more
        (depth :: (path.elements.flatMap fun element => Bytes.ofNatBE 4 element.toNat) ++ rest)
        (.ok (.signInit path more rest))

/-- What a command is taken for: a first chunk, a further one, the question about the device, or
something that the device does not do. -/
inductive Classified (parameter : UInt8) : UInt8 → Bytes → Except SessionError Event → Prop
  | first {data : Bytes} {answer : Except SessionError Event} :
      parameter.toNat.testBit 0 = false → FirstChunk (parameter.toNat.testBit 7) data answer →
      Classified parameter 0x04 data answer
  | further (data : Bytes) : parameter.toNat.testBit 0 = true →
      Classified parameter 0x04 data (.ok (.signContinue (parameter.toNat.testBit 7) data))
  | configuration (data : Bytes) : Classified parameter 0x06 data (.ok .getConfiguration)
  | unknown {instruction : UInt8} (data : Bytes) : instruction ≠ 0x04 → instruction ≠ 0x06 →
      Classified parameter instruction data (.error .instructionNotSupported)

/-- The answer to a first chunk is that of the reading of its path. -/
theorem ofCommand_first (hfirst : parameter.toNat.testBit 0 = false) (data : Bytes) :
    ofCommand 0x04 parameter data =
      match DerivationPath.decode data with
      | .ok (path, count) => .ok (.signInit path (parameter.toNat.testBit 7) (data.drop count))
      | .error .invalidEncoding => .error .invalidPath
      | .error error => .error (SessionError.ofApdu error) := by
  have hsign : (0x04 : UInt8).toNat = Coded.code Instruction.sign := rfl
  rw [ofCommand, Instruction.ofCode?_eq_some.mpr hsign, SignRequest.decode,
    SignFlags.ofByte_eq_testBit, hfirst]
  cases DerivationPath.decode data with
  | ok result => rfl
  | error error => cases error <;> rfl

/-- A further chunk is never refused. -/
theorem ofCommand_further (hfurther : parameter.toNat.testBit 0 = true) (data : Bytes) :
    ofCommand 0x04 parameter data = .ok (.signContinue (parameter.toNat.testBit 7) data) := by
  have hsign : (0x04 : UInt8).toNat = Coded.code Instruction.sign := rfl
  rw [ofCommand, Instruction.ofCode?_eq_some.mpr hsign, SignRequest.decode,
    SignFlags.ofByte_eq_testBit, hfurther]
  rfl

theorem ofCommand_unknown (hsign : instruction ≠ 0x04) (hconfiguration : instruction ≠ 0x06)
    (data : Bytes) : ofCommand instruction parameter data = .error .instructionNotSupported := by
  rw [ofCommand]
  split
  · next h => exact absurd (UInt8.toNat_inj.mp (Instruction.ofCode?_eq_some.mp h)) hsign
  · next h => exact absurd (UInt8.toNat_inj.mp (Instruction.ofCode?_eq_some.mp h)) hconfiguration
  · rfl

/-- What a first chunk is taken for is what the reading of commands answers. -/
theorem FirstChunk.ofCommand_eq (h : FirstChunk (parameter.toNat.testBit 7) data answer)
    (hfirst : parameter.toNat.testBit 0 = false) : ofCommand 0x04 parameter data = answer := by
  rw [ofCommand_first hfirst]
  cases h with
  | empty => rfl
  | impossible rest hdepth => rw [DerivationPath.decode_impossible rest hdepth]
  | short hpositive hdepth hshort =>
    rw [DerivationPath.decode_short hpositive hdepth hshort]
    rfl
  | whole path rest hpositive hdepth =>
    rw [DerivationPath.decode_whole hpositive hdepth]
    have hlength : path.encodedLength = (path.elements.flatMap fun element =>
        Bytes.ofNatBE 4 element.toNat).length + 1 := by
      rw [DerivationPath.length_flatMap_ofNatBE, DerivationPath.encodedLength, Nat.add_comm]
      rfl
    dsimp only
    rw [hlength, List.cons_append, List.drop_succ_cons, List.drop_left]

theorem Classified.ofCommand_eq (h : Classified parameter instruction data answer) :
    ofCommand instruction parameter data = answer := by
  cases h with
  | first hfirst hchunk => exact hchunk.ofCommand_eq hfirst
  | further data hfurther => exact ofCommand_further hfurther data
  | configuration data => rfl
  | unknown data hsign hconfiguration => exact ofCommand_unknown hsign hconfiguration data

/-- Every string of bytes is taken for something. -/
theorem exists_firstChunk (more : Bool) (data : Bytes) : ∃ answer, FirstChunk more data answer := by
  cases data with
  | nil => exact ⟨_, .empty⟩
  | cons depth rest =>
    by_cases himpossible : depth.toNat = 0 ∨ 5 < depth.toNat
    · exact ⟨_, .impossible rest himpossible⟩
    · have hpositive : 1 ≤ depth.toNat := by omega
      have hdepth : depth.toNat ≤ 5 := by omega
      by_cases hshort : (depth :: rest).length < 1 + 4 * depth.toNat
      · exact ⟨_, .short hpositive hdepth hshort⟩
      · rw [List.length_cons] at hshort
        have hroom : 4 * depth.toNat ≤ rest.length := by omega
        have hcount := DerivationPath.length_elementsOf depth.toNat rest
        have hfits : (DerivationPath.elementsOf depth.toNat rest).length ≤ Limits.maxPathDepth := by
          rw [hcount]
          exact hdepth
        have hchunk : FirstChunk more _ _ :=
          .whole ⟨_, hfits⟩ (rest.drop (4 * depth.toNat)) hpositive hcount
        rw [List.cons_append, DerivationPath.flatMap_elementsOf hroom, List.take_append_drop]
          at hchunk
        exact ⟨_, hchunk⟩

/-- Every command is taken for something. -/
theorem exists_classified (instruction parameter : UInt8) (data : Bytes) :
    ∃ answer, Classified parameter instruction data answer := by
  by_cases hsign : instruction = 0x04
  · subst hsign
    cases hflag : parameter.toNat.testBit 0 with
    | true => exact ⟨_, .further data hflag⟩
    | false =>
      obtain ⟨answer, hchunk⟩ := exists_firstChunk (parameter.toNat.testBit 7) data
      exact ⟨answer, .first hflag hchunk⟩
  · by_cases hconfiguration : instruction = 0x06
    · subst hconfiguration
      exact ⟨_, .configuration data⟩
    · exact ⟨_, .unknown data hsign hconfiguration⟩

/-- Nothing is taken for incorrect data. -/
theorem Classified.ne_incorrectData (h : Classified parameter instruction data answer) :
    answer ≠ .error .incorrectData := by
  rintro rfl
  cases h with
  | first hfirst hchunk => cases hchunk

/-- Every command is answered as what it is taken for. Only two bits of the parameter matter, and no
command is reported as incorrect data. -/
theorem ofCommand_classified (instruction parameter : UInt8) (data : Bytes) :
    (∀ answer, ofCommand instruction parameter data = answer ↔
      Classified parameter instruction data answer) ∧
    ofCommand instruction (parameter &&& 0x81) data = ofCommand instruction parameter data ∧
    ofCommand instruction parameter data ≠ .error .incorrectData := by
  obtain ⟨answer, hanswer⟩ := exists_classified instruction parameter data
  have heq := hanswer.ofCommand_eq
  refine ⟨?_, ?_, ?_⟩
  · intro answer'
    constructor
    · intro h
      rwa [← h, heq]
    · exact Classified.ofCommand_eq
  · have hflags : SignFlags.ofByte (parameter &&& 0x81) = SignFlags.ofByte parameter :=
      SignFlags.ofByte_and_knownBits parameter
    rw [ofCommand, ofCommand, SignRequest.decode, SignRequest.decode, hflags]
  · rw [heq]
    exact hanswer.ne_incorrectData

/-- A depth that no path has is reported though its elements are missing too. -/
example : ofCommand 0x04 0x7e [6] = .error .invalidPath := rfl

end Event

end NemSigner
