import NemSigner.Proofs.Apdu.Requests
import NemSigner.Proofs.Session.Registers

/-!
# Commands that are no events

A command is read before the session is told of it. One that cannot be read is answered with an
error like an event that fails, but the session does not learn of it and goes on where it was.

## Main definitions

- `DerivationPath.Leads` — bytes that begin with all of a path
- `Event.Readable` — commands that are events
- `Registers.command` — what a command does to the registers

## Main statements

- `Event.exists_ofCommand_iff` — which commands are events
- `Registers.command_of_error` — a command that fails clears the registers exactly when it is an
  event or there was no session
- `Registers.command_without_abort` — a session that outlasts an error
-/

namespace NemSigner

theorem Instruction.ofCode?_eq_some {number : Nat} {instruction : Instruction} :
    Coded.ofCode? number = some instruction ↔ number = Coded.code instruction := by
  constructor
  · intro h
    have hcode : Coded.code instruction = number := by simpa using List.find?_some h
    exact hcode.symm
  · rintro rfl
    cases instruction <;> rfl

/-- The bytes begin with all of a path that names a key. -/
def DerivationPath.Leads (data : Bytes) : Prop :=
  ∃ depth rest, data = depth :: rest ∧ 1 ≤ depth.toNat ∧ depth.toNat ≤ Limits.maxPathDepth ∧
    4 * depth.toNat ≤ rest.length

theorem DerivationPath.exists_decode_iff {data : Bytes} :
    (∃ result, decode data = .ok result) ↔ Leads data := by
  constructor
  · rintro ⟨⟨path, count⟩, h⟩
    obtain ⟨depth, rest, hdata, hzero, hdepth, hroom, -, -⟩ := decode_cases h
    exact ⟨depth, rest, hdata, Nat.one_le_iff_ne_zero.mpr hzero, hdepth, hroom⟩
  · rintro ⟨depth, rest, rfl, hpositive, hdepth, hroom⟩
    rw [decode, if_neg (Nat.ne_of_gt hpositive), dif_pos hdepth, if_neg (Nat.not_lt_of_le hroom)]
    exact ⟨_, rfl⟩

namespace Event

/-- The command is the question about the device, a further chunk, or a first chunk with all of its
path. -/
def Readable (instruction parameter : UInt8) (data : Bytes) : Prop :=
  instruction.toNat = Coded.code Instruction.getConfiguration ∨
    instruction.toNat = Coded.code Instruction.sign ∧
      ((SignFlags.ofByte parameter).continuation = true ∨ DerivationPath.Leads data)

variable {instruction parameter : UInt8} {data : Bytes}

/-- A signing command is an event when its request can be read. -/
theorem exists_ofCommand_sign (hsign : instruction.toNat = Coded.code Instruction.sign) :
    (∃ event, ofCommand instruction parameter data = .ok event) ↔
      (SignFlags.ofByte parameter).continuation = true ∨ DerivationPath.Leads data := by
  rw [ofCommand, Instruction.ofCode?_eq_some.mpr hsign, ← DerivationPath.exists_decode_iff,
    SignRequest.decode]
  dsimp only
  cases hflag : (SignFlags.ofByte parameter).continuation with
  | true => simp [SignFlags.isFirst, hflag]
  | false =>
    simp only [SignFlags.isFirst, hflag, Bool.not_false, if_true]
    cases DerivationPath.decode data with
    | ok result => simp [bind, Except.bind, pure, Except.pure]
    | error error => cases error <;> simp [bind, Except.bind]

/-- Which commands are events. -/
theorem exists_ofCommand_iff :
    (∃ event, ofCommand instruction parameter data = .ok event) ↔
      Readable instruction parameter data := by
  by_cases hsign : instruction.toNat = Coded.code Instruction.sign
  · have hquestion : instruction.toNat ≠ Coded.code Instruction.getConfiguration := by
      rw [hsign]
      decide
    rw [exists_ofCommand_sign hsign]
    exact ⟨fun h => .inr ⟨hsign, h⟩, fun h => (h.resolve_left hquestion).2⟩
  · by_cases hquestion : instruction.toNat = Coded.code Instruction.getConfiguration
    · rw [ofCommand, Instruction.ofCode?_eq_some.mpr hquestion]
      exact ⟨fun _ => .inl hquestion, fun _ => ⟨_, rfl⟩⟩
    · have hreadable : ¬Readable instruction parameter data := by
        rintro (h | h)
        · exact hquestion h
        · exact hsign h.1
      refine ⟨fun h => ?_, fun h => absurd h hreadable⟩
      obtain ⟨event, hevent⟩ := h
      rw [ofCommand] at hevent
      split at hevent
      · next hknown => exact absurd (Instruction.ofCode?_eq_some.mp hknown) hsign
      · next hknown => exact absurd (Instruction.ofCode?_eq_some.mp hknown) hquestion
      · cases hevent

end Event

/-- The status word of every error reports one. -/
theorem SessionError.status_isError (error : SessionError) : error.status.isError = true := by
  cases error <;> rfl

namespace Registers

variable {registers : Registers} {instruction parameter : UInt8} {data : Bytes}
  {error : SessionError}

/-- What a command does to the registers. One that is no event does not reach them. -/
def command (registers : Registers) (instruction parameter : UInt8) (data : Bytes) :
    Except SessionError Output × Registers :=
  match Event.ofCommand instruction parameter data with
  | .ok event => registers.update event
  | .error error => (.error error, registers)

/-- A command does to the registers what it does to the session that they hold. -/
theorem stored_command (session : Session) (instruction parameter : UInt8) (data : Bytes) :
    session.stored.command instruction parameter data =
      ((session.command instruction parameter data).1,
        (session.command instruction parameter data).2.stored) := by
  rw [command, Session.command]
  cases Event.ofCommand instruction parameter data with
  | ok event => exact session.stored_update event
  | error error => rfl

/-- Registers that go together say in the state whether there is a session. -/
theorem Reachable.eq_initial_iff (h : registers.Reachable) :
    registers = initial ↔ registers.state = .idle := by
  obtain ⟨session, -, rfl⟩ := h.exists_session
  cases session with
  | idle => exact iff_of_true rfl rfl
  | receiving draft => exact iff_of_false nofun nofun
  | reviewing draft => exact iff_of_false nofun nofun

/-- A command that fails, as its status word reports, clears the registers when it is an event. Any
other leaves them as they are, so a session outlasts it. -/
theorem command_of_error (hreachable : registers.Reachable)
    (herror : (registers.command instruction parameter data).1 = .error error) :
    error.status.isError = true ∧
      ((registers.command instruction parameter data).2 = initial ↔
        registers.state = .idle ∨ Event.Readable instruction parameter data) ∧
      (¬Event.Readable instruction parameter data →
        (registers.command instruction parameter data).2 = registers) := by
  refine ⟨error.status_isError, ?_⟩
  rw [← Event.exists_ofCommand_iff, ← hreachable.eq_initial_iff]
  cases hread : Event.ofCommand instruction parameter data with
  | ok event =>
    rw [command, hread] at herror ⊢
    have hcleared : (registers.update event).2 = initial := close_of_error herror
    simp [hcleared]
  | error reason =>
    rw [command, hread]
    simp

/-- A device that waits for more chunks is asked for something that it does not know. -/
theorem command_of_error_interrupted :
    interrupted.Reachable ∧
      (interrupted.command 0x05 0x00 []).1 = .error .instructionNotSupported ∧
      (interrupted.command 0x05 0x00 []).2 = interrupted ∧ interrupted.state = .waitingForMore := by
  have hreachable : interrupted.Reachable := .perform _ _ .fresh
  have herror : (interrupted.command 0x05 0x00 []).1 = .error .instructionNotSupported := rfl
  have hunreadable : ¬Event.Readable 0x05 0x00 [] := by
    rintro (h | ⟨h, -⟩) <;> cases h
  exact ⟨hreachable, herror, (command_of_error hreachable herror).2.2 hunreadable, rfl⟩

/-- Not every error ends a session. -/
theorem command_without_abort :
    ¬∀ registers : Registers, registers.Reachable → ∀ instruction parameter data error,
      (registers.command instruction parameter data).1 = .error error →
        (registers.command instruction parameter data).2 = initial := by
  intro h
  have hcleared := h interrupted (.perform _ _ .fresh) 0x05 0x00 [] .instructionNotSupported rfl
  cases congrArg Registers.state hcleared

end Registers

end NemSigner
