import ChipEight.Proofs.Board.Effects
import ChipEight.Proofs.Board.Fetch
import Mathlib.Tactic.Common

namespace ChipEight

inductive Instruction.Faults (b : Board) : Instruction → Fault → Prop where
  | ret (h : b.cpu.stack.depth = 0) : Faults b .ret .stackEmpty
  | call {nnn : Location} (h : b.cpu.stack.depth = stackSize) : Faults b (.call nnn) .stackFull
  | keyDown {x : RegisterName} (h : 15 < (b.cpu.register x).toNat) :
      Faults b (.skip (.keyDown x)) (.noKey (b.cpu.register x).toNat)
  | keyUp {x : RegisterName} (h : 15 < (b.cpu.register x).toNat) :
      Faults b (.skip (.keyUp x)) (.noKey (b.cpu.register x).toNat)
  | glyph {x : RegisterName} (h : 15 < (b.cpu.register x).toNat) :
      Faults b (.transfer .pointToGlyph x) (.noGlyph (b.cpu.register x).toNat)
  | draw {x y : RegisterName} {n : Fin 16} (hn : 0 < n.val)
      (h : memorySize < b.cpu.index.toNat + n.val) :
      Faults b (.draw x y n) (.outOfRange (max b.cpu.index.toNat memorySize) memorySize)
  | storeDigits {x : RegisterName} (h : memorySize < b.cpu.index.toNat + 3) :
      Faults b (.transfer .storeDigits x)
        (.outOfRange (max b.cpu.index.toNat memorySize) memorySize)
  | storeRegisters {x : RegisterName} (h : memorySize < b.cpu.index.toNat + x.val + 1) :
      Faults b (.transfer .storeRegisters x)
        (.outOfRange (max b.cpu.index.toNat memorySize) memorySize)
  | loadRegisters {x : RegisterName} (h : memorySize < b.cpu.index.toNat + x.val + 1) :
      Faults b (.transfer .loadRegisters x)
        (.outOfRange (max b.cpu.index.toNat memorySize) memorySize)

inductive Board.Faults (b : Board) : Fault → Prop where
  | unfetchable (h : memorySize - 1 ≤ b.cpu.pc.toNat) :
      Faults b (.outOfRange (max b.cpu.pc.toNat memorySize) memorySize)
  | undecodable (h : b.cpu.pc.toNat < memorySize - 1)
      (hw : Instruction.decode b.wordAtPc = none) : Faults b (.undecodable b.wordAtPc)
  | instruction {i : Instruction} {f : Fault} (h : b.Fetches i) (hf : i.Faults b f) : Faults b f

namespace Board

variable {b : Board} {f : Fault}

theorem outcome_requireRoom_error_iff (count : Nat) (changed : Board) :
    (b.requireRoom count changed).outcome = .error f ↔
      (0 < count ∧ memorySize < b.cpu.index.toNat + count) ∧ f = b.overrun := by
  rw [← fits_eq_false_iff]
  cases h : b.fits count with
  | true => simp [requireRoom_of_fits h, proceed]
  | false => simp [requireRoom_of_not_fits h, abort, eq_comm]

theorem outcome_drawSprite_error_iff (x y : RegisterName) (rows : Nat) :
    (b.drawSprite x y rows).outcome = .error f ↔
      (0 < rows ∧ memorySize < b.cpu.index.toNat + rows) ∧ f = b.overrun := by
  rw [← fits_eq_false_iff]
  cases h : b.fits rows with
  | true => simp [drawSprite_of_fits h, proceed]
  | false => simp [drawSprite_of_not_fits h, abort, eq_comm]

theorem outcome_ret_error_iff :
    b.ret.outcome = .error f ↔ b.cpu.stack.depth = 0 ∧ f = .stackEmpty := by
  rcases Nat.eq_zero_or_pos b.cpu.stack.depth with hempty | hpos
  · simp [ret_of_empty hempty, abort, hempty, eq_comm]
  · obtain ⟨target, stack, _, hret⟩ := ret_of_pos hpos
    simp [hret, proceed, Nat.ne_of_gt hpos]

theorem outcome_call_error_iff (nnn : Location) :
    (b.call nnn).outcome = .error f ↔ b.cpu.stack.depth = stackSize ∧ f = .stackFull := by
  rcases Nat.lt_or_eq_of_le b.cpu.stack.depth_le with hroom | hfull
  · obtain ⟨stack, _, hcall⟩ := call_of_room nnn hroom
    have hne : b.cpu.stack.depth ≠ stackSize := Nat.ne_of_lt hroom
    simp [hcall, proceed, hne]
  · have hdepth : b.cpu.stack.depth = stackSize := hfull
    simp [call_of_full nnn hdepth, abort, hdepth, eq_comm]

theorem isDown_error_iff (k : Keypad) {n : Nat} :
    k.isDown n = .error f ↔ 15 < n ∧ f = .noKey n := by
  rcases Nat.lt_or_ge n keyCount with h | h
  · have hle : ¬15 < n := Nat.not_lt.2 (Nat.le_of_lt_succ h)
    simp [k.isDown_of_lt h, hle]
  · have hlt : 15 < n := h
    simp [k.isDown_of_le h, hlt, eq_comm]

theorem map_error_iff {α β : Type} {r : Except Fault α} {g : α → β} :
    r.map g = .error f ↔ r = .error f := by
  cases r <;> simp [Except.map]

theorem holds_error_iff (c : Condition) :
    b.holds c = .error f ↔ (Instruction.skip c).Faults b f := by
  cases c with
  | equals x nn | differs x nn | same x y | distinct x y => exact ⟨nofun, nofun⟩
  | keyDown x =>
    rw [holds, isDown_error_iff]
    constructor
    · rintro ⟨h, rfl⟩
      exact .keyDown h
    · intro hf
      cases hf with
      | keyDown h => exact ⟨h, rfl⟩
  | keyUp x =>
    rw [holds, map_error_iff, isDown_error_iff]
    constructor
    · rintro ⟨h, rfl⟩
      exact .keyUp h
    · intro hf
      cases hf with
      | keyUp h => exact ⟨h, rfl⟩

theorem outcome_skip_error_iff (c : Condition) :
    (b.skip c).outcome = .error f ↔ (Instruction.skip c).Faults b f := by
  rw [← holds_error_iff]
  cases h : b.holds c with
  | ok met => simp [skip_of_ok h, proceed]
  | error g => simp [skip_of_error h, abort]

theorem outcome_pointToGlyph_error_iff (x : RegisterName) :
    (b.transfer x .pointToGlyph).outcome = .error f ↔
      15 < (b.cpu.register x).toNat ∧ f = .noGlyph (b.cpu.register x).toNat := by
  rcases Nat.lt_or_ge 15 (b.cpu.register x).toNat with hlarge | hdigit
  · simp [pointToGlyph_of_lt hlarge, abort, hlarge, eq_comm]
  · obtain ⟨address, hpoint⟩ := pointToGlyph_of_le hdigit
    simp [hpoint, proceed, Nat.not_lt.2 hdigit]

theorem outcome_transfer_error_iff (x : RegisterName) (op : Transfer) :
    (b.transfer x op).outcome = .error f ↔ (Instruction.transfer op x).Faults b f := by
  cases op with
  | readDelay | awaitKey | setDelay | setSound | addToIndex => exact ⟨nofun, nofun⟩
  | pointToGlyph =>
    rw [outcome_pointToGlyph_error_iff]
    constructor
    · rintro ⟨h, rfl⟩
      exact .glyph h
    · intro hf
      cases hf with
      | glyph h => exact ⟨h, rfl⟩
  | storeDigits =>
    rw [transfer, storeDigits, outcome_requireRoom_error_iff]
    constructor
    · rintro ⟨⟨_, h⟩, rfl⟩
      exact .storeDigits h
    · intro hf
      cases hf with
      | storeDigits h => exact ⟨⟨by decide, h⟩, rfl⟩
  | storeRegisters =>
    rw [transfer, storeRegisters, outcome_requireRoom_error_iff]
    constructor
    · rintro ⟨⟨_, h⟩, rfl⟩
      exact .storeRegisters h
    · intro hf
      cases hf with
      | storeRegisters h => exact ⟨⟨Nat.succ_pos _, h⟩, rfl⟩
  | loadRegisters =>
    rw [transfer, loadRegisters, outcome_requireRoom_error_iff]
    constructor
    · rintro ⟨⟨_, h⟩, rfl⟩
      exact .loadRegisters h
    · intro hf
      cases hf with
      | loadRegisters h => exact ⟨⟨Nat.succ_pos _, h⟩, rfl⟩

theorem outcome_execute_error_iff (i : Instruction) :
    (b.execute i).outcome = .error f ↔ i.Faults b f := by
  cases i with
  | clear => exact ⟨nofun, nofun⟩
  | jump nnn | jumpOffset nnn | loadIndex nnn => exact ⟨nofun, nofun⟩
  | load x nn | add x nn | random x nn => exact ⟨nofun, nofun⟩
  | arithmetic op x y => exact ⟨nofun, nofun⟩
  | ret =>
    rw [execute, outcome_ret_error_iff]
    constructor
    · rintro ⟨h, rfl⟩
      exact .ret h
    · intro hf
      cases hf with
      | ret h => exact ⟨h, rfl⟩
  | call nnn =>
    rw [execute, outcome_call_error_iff]
    constructor
    · rintro ⟨h, rfl⟩
      exact .call h
    · intro hf
      cases hf with
      | call h => exact ⟨h, rfl⟩
  | skip c => exact outcome_skip_error_iff c
  | draw x y n =>
    rw [execute, outcome_drawSprite_error_iff]
    constructor
    · rintro ⟨⟨hn, h⟩, rfl⟩
      exact .draw hn h
    · intro hf
      cases hf with
      | draw hn h => exact ⟨⟨hn, h⟩, rfl⟩
  | transfer op x => exact outcome_transfer_error_iff x op

theorem outcome_step_of_running (hrun : b.cpu.mode = .running) :
    b.step.outcome = .error f ↔ b.Faults f := by
  rcases b.fetch_cases with h | ⟨h, hw⟩ | ⟨i, hi⟩
  · rw [step_of_unfetchable hrun h, Except.error.injEq]
    constructor
    · rintro rfl
      exact .unfetchable (by omega)
    · rintro (⟨_⟩ | ⟨h', _⟩ | ⟨hi, _⟩)
      · rfl
      · omega
      · exact absurd hi.inside (by omega)
  · rw [step_of_undecodable hrun h hw, Except.error.injEq]
    constructor
    · rintro rfl
      exact .undecodable (by omega) hw
    · rintro (⟨h'⟩ | ⟨_, _⟩ | ⟨hi, _⟩)
      · omega
      · rfl
      · exact absurd (hw.symm.trans hi.decode) nofun
  · have hout : b.step.outcome = .error f ↔ i.Faults b f := by
      rw [step_of_fetches hrun hi, ← outcome_execute_error_iff]
      exact Effect.finish_outcome_error_iff
    rw [hout]
    constructor
    · exact .instruction hi
    · rintro (⟨h'⟩ | ⟨_, hw⟩ | ⟨hj, hf⟩)
      · exact absurd hi.inside (by omega)
      · exact absurd (hw.symm.trans hi.decode) nofun
      · exact hi.unique hj ▸ hf

theorem outcome_step_error_iff :
    b.step.outcome = .error f ↔ b.cpu.mode = .running ∧ b.Faults f := by
  rcases b.running_or_awaiting with hrun | ⟨x, hwait⟩
  · rw [outcome_step_of_running hrun]
    exact ⟨fun hf => ⟨hrun, hf⟩, And.right⟩
  · rw [step_of_awaiting hwait, hwait]
    exact ⟨nofun, nofun⟩

theorem step_fails_iff (b : Board) (f : Fault) :
    (b.step.outcome = .error f ↔ b.cpu.mode = .running ∧ b.Faults f) ∧
      (b.step.outcome = .error f →
        (∀ a n, f ≠ .partialWrite a n) ∧ (∀ n, f ≠ .noSlot n) ∧ ∀ x, f ≠ .noRegister x) := by
  refine ⟨outcome_step_error_iff, fun h => ?_⟩
  obtain ⟨_, hf⟩ := outcome_step_error_iff.1 h
  cases hf with
  | unfetchable => exact ⟨nofun, nofun, nofun⟩
  | undecodable => exact ⟨nofun, nofun, nofun⟩
  | instruction _ hi => cases hi <;> exact ⟨nofun, nofun, nofun⟩

end Board

end ChipEight
