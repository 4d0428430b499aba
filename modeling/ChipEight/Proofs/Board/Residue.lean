import ChipEight.Proofs.Board.Drawing
import ChipEight.Proofs.Board.Faults
import ChipEight.Proofs.Board.Footprint
import ChipEight.Proofs.Memory.Access
import Mathlib.Algebra.Group.Nat.Defs
import Mathlib.Data.List.GetD

namespace ChipEight

def decimalDigit (v : UInt8) (j : Nat) : UInt8 :=
  UInt8.ofNat (v.toNat / 10 ^ (2 - j) % 10)

namespace Board

def room (b : Board) : Nat :=
  memorySize - b.cpu.index.toNat

theorem length_decimalDigits (v : UInt8) : (decimalDigits v).length = 3 := rfl

theorem getD_decimalDigits (v : UInt8) {j : Nat} (h : j < 3) :
    (decimalDigits v).getD j 0 = decimalDigit v j := by
  have hv := v.toNat_lt
  apply UInt8.toNat_inj.1
  rcases j with _ | _ | _ | j
  · simp [decimalDigits, decimalDigit]
    omega
  · simp [decimalDigits, decimalDigit]
    omega
  · simp [decimalDigits, decimalDigit]
    omega
  · omega

theorem getD_firstRegisters (b : Board) {x y : RegisterName} (h : y ≤ x) :
    (b.firstRegisters x).getD y.val 0 = b.cpu.register y := by
  have hy : y.val < x.val + 1 := Nat.lt_succ_of_le h
  simp [firstRegisters, Cpu.register, hy]

theorem get_storeAtIndex (b : Board) {data : List UInt8} {j : Nat} (hj : j < data.length)
    (hr : j < b.room) :
    (b.storeAtIndex data).memory.get (b.cpu.index.toNat + j) = data.getD j 0 := by
  rw [room] at hr
  refine (b.memory.get_store _ _ data).trans ?_
  rw [if_pos (by omega), Nat.add_sub_cancel_left]

theorem toNat_advanceIndex (b : Board) {count : Nat}
    (h : b.cpu.index.toNat + count < UInt16.size) :
    (b.advanceIndex count).cpu.index.toNat = b.cpu.index.toNat + count :=
  Memory.toNat_add_ofNat h

theorem index_add_room_lt (b : Board) : b.cpu.index.toNat + b.room < UInt16.size := by
  have := b.cpu.index.toNat_lt
  rw [room, memorySize, UInt16.size]
  omega

end Board

def Part.control : Part → Bool
  | pc | stack | delay | sound | mode | start | random | tone | keypad | shutdown => true
  | register _ | index | memory _ | screen | broken => false

namespace Instruction

def residue (b : Board) : Instruction → Set Part
  | transfer .storeDigits _ => b.stretch b.room
  | transfer .storeRegisters _ => insert .index (b.stretch b.room)
  | transfer .loadRegisters _ =>
    insert .index { p | ∃ y : RegisterName, y.val < b.room ∧ p = .register y }
  | draw .. => {.screen}
  | _ => ∅

def Leaves (b b' : Board) : Instruction → Prop
  | transfer .storeDigits x => ∀ j < b.room,
    b'.memory.get (b.cpu.index.toNat + j) = decimalDigit (b.cpu.register x) j
  | transfer .storeRegisters _ =>
    (∀ y : RegisterName, y.val < b.room →
      b'.memory.get (b.cpu.index.toNat + y.val) = b.cpu.register y) ∧
    b'.cpu.index.toNat = b.cpu.index.toNat + b.room
  | transfer .loadRegisters _ =>
    (∀ y : RegisterName, y.val < b.room →
      b'.cpu.register y = b.memory.get (b.cpu.index.toNat + y.val)) ∧
    b'.cpu.index.toNat = b.cpu.index.toNat + b.room
  | draw x y _ => ∃ off, Screen.Drawn (b.SpriteCovers x y b.room) b.screen b'.screen off
  | _ => True

theorem control_not_mem_residue (b : Board) (i : Instruction) {p : Part} (h : p.control = true) :
    p ∉ i.residue b := by
  intro hm
  unfold residue at hm
  split at hm
  · obtain ⟨a, rfl, _⟩ := hm
    cases h
  · obtain rfl | ⟨a, rfl, _⟩ := hm <;> cases h
  · obtain rfl | ⟨y, _, rfl⟩ := hm <;> cases h
  · obtain rfl := hm
    cases h
  · exact hm

end Instruction

namespace Board

variable {b : Board} {f : Fault}

theorem min_room_of_lt {count : Nat} (h : memorySize < b.cpu.index.toNat + count) :
    min count (Memory.room b.cpu.index.toNat) = b.room := by
  rw [Memory.room, room]
  omega

theorem min_length_window_of_lt {count : Nat} (h : memorySize < b.cpu.index.toNat + count) :
    (b.memory.window b.cpu.index.toNat count).length = b.room := by
  rw [Memory.length_window, room]
  omega

theorem agreesAt_of_faults {i : Instruction} (h : i.Faults b f) {p : Part}
    (hp : p ∉ i.residue b) : b.AgreesAt (b.execute i).board p := by
  cases h with
  | ret h =>
    rw [execute, ret_of_empty h]
    exact .refl b p
  | call h =>
    rw [execute, call_of_full _ h]
    exact .refl b p
  | keyDown | keyUp =>
    rw [execute, board_skip]
    exact .refl b p
  | glyph h =>
    rw [execute, pointToGlyph_of_lt h]
    exact .refl b p
  | draw hn h =>
    rw [execute, drawSprite_of_not_fits ((fits_eq_false_iff _ _).2 ⟨hn, h⟩)]
    exact b.agreesAt_screen _ hp
  | storeDigits h =>
    rw [execute, transfer, storeDigits, board_requireRoom]
    refine b.agreesAt_storeAtIndex _ ?_
    rw [length_decimalDigits, min_room_of_lt h]
    exact hp
  | storeRegisters h =>
    rw [execute, transfer, storeRegisters, board_requireRoom]
    refine AgreesAt.trans (b.agreesAt_storeAtIndex _ ?_)
      (agreesAt_setIndex _ _ fun he => hp (.inl he))
    rw [length_firstRegisters, min_room_of_lt h]
    exact fun hm => hp (.inr hm)
  | loadRegisters h =>
    rw [execute, transfer, loadRegisters, board_requireRoom]
    refine AgreesAt.trans (b.agreesAt_fillRegisters _ ?_)
      (agreesAt_setIndex _ _ fun he => hp (.inl he))
    rw [min_length_window_of_lt h]
    exact fun y hy he => hp (.inr ⟨y, hy, he⟩)

theorem leaves_of_faults {i : Instruction} (h : i.Faults b f) :
    i.Leaves b (b.execute i).board := by
  cases h with
  | ret | call | keyDown | keyUp | glyph => trivial
  | @draw x y n hn h =>
    rw [execute, drawSprite_of_not_fits ((fits_eq_false_iff _ _).2 ⟨hn, h⟩)]
    have hd := b.drawn_drawnScreen x y (Nat.le_trans n.is_le (by decide) : n.val ≤ height)
    rw [min_room_of_lt h] at hd
    exact ⟨_, hd⟩
  | @storeDigits x h =>
    intro j hj
    have hlt : j < 3 := by
      rw [room] at hj
      omega
    rw [execute, transfer, storeDigits, board_requireRoom, get_storeAtIndex _ hlt hj]
    exact getD_decimalDigits _ hlt
  | @storeRegisters x h =>
    rw [execute, transfer, storeRegisters, board_requireRoom, min_room_of_lt h]
    constructor
    · intro y hy
      have hle : y ≤ x := by
        rw [room] at hy
        exact Fin.le_def.2 (by omega)
      have hlen : y.val < (b.firstRegisters x).length := by
        rw [length_firstRegisters]
        exact Nat.lt_succ_of_le hle
      exact (b.get_storeAtIndex hlen hy).trans (b.getD_firstRegisters hle)
    · exact toNat_advanceIndex _ b.index_add_room_lt
  | @loadRegisters x h =>
    rw [execute, transfer, loadRegisters, board_requireRoom, min_length_window_of_lt h]
    constructor
    · intro y hy
      have hlen : y.val < (b.memory.window b.cpu.index.toNat (x.val + 1)).length := by
        rwa [min_length_window_of_lt h]
      refine (b.register_fillRegisters _ y).trans ?_
      rw [List.getD_eq_getElem _ _ hlen, Memory.getElem_window]
    · exact toNat_advanceIndex _ b.index_add_room_lt

theorem area_of_faults {i : Instruction} (h : i.Faults b f) : f.area ≠ .opcode := by
  cases h <;> exact nofun

theorem board_step_of_faults {i : Instruction} (hrun : b.cpu.mode = .running) (hi : b.Fetches i)
    (hf : i.Faults b f) : b.step.board = (b.execute i).board := by
  have hout : (b.execute i).outcome = .error f := (outcome_execute_error_iff i).2 hf
  rw [step_of_fetches hrun hi, Effect.finish_of_error hout]

theorem agreesAt_step_of_error (h : b.step.outcome = .error f) {p : Part} (hp : p ≠ .broken)
    (hr : ∀ i, b.Fetches i → p ∉ i.residue b) : b.AgreesAt b.step.board p := by
  obtain ⟨hrun, hf⟩ := outcome_step_error_iff.1 h
  cases hf with
  | unfetchable hpc =>
    rw [step_of_unfetchable hrun (by omega)]
    exact .refl b p
  | undecodable hpc hw =>
    rw [step_of_undecodable hrun (by omega) hw]
    exact b.agreesAt_setBroken true hp
  | instruction hi hfi =>
    rw [board_step_of_faults hrun hi hfi]
    exact agreesAt_of_faults hfi (hr _ hi)

theorem control_step_of_error (h : b.step.outcome = .error f) {p : Part}
    (hp : p.control = true) : b.AgreesAt b.step.board p := by
  have hne : p ≠ .broken := by
    rintro rfl
    cases hp
  exact agreesAt_step_of_error h hne fun i _ => i.control_not_mem_residue b hp

theorem leaves_step_of_error (h : b.step.outcome = .error f) {i : Instruction}
    (hi : b.Fetches i) : i.Leaves b b.step.board := by
  obtain ⟨hrun, hf⟩ := outcome_step_error_iff.1 h
  cases hf with
  | unfetchable hpc => exact absurd hi.inside (by omega)
  | undecodable hpc hw => exact absurd (hw.symm.trans hi.decode) nofun
  | instruction hj hfj =>
    obtain rfl := hi.unique hj
    rw [board_step_of_faults hrun hi hfj]
    exact leaves_of_faults hfj

theorem broken_step_of_error (h : b.step.outcome = .error f) :
    b.step.board.broken = (b.broken || decide (f.area = .opcode)) := by
  obtain ⟨hrun, hf⟩ := outcome_step_error_iff.1 h
  cases hf with
  | unfetchable hpc =>
    rw [step_of_unfetchable hrun (by omega)]
    exact (Bool.or_false _).symm
  | undecodable hpc hw =>
    rw [step_of_undecodable hrun (by omega) hw]
    exact (Bool.or_true _).symm
  | @instruction i _ hi hfi =>
    have hkept : b.AgreesAt (b.execute i).board .broken :=
      b.agreesAt_execute i (Part.not_mem_footprint b i rfl)
    rw [board_step_of_faults hrun hi hfi, decide_eq_false (area_of_faults hfi), Bool.or_false]
    exact hkept

theorem failed_step_residue (h : b.step.outcome = .error f) :
    b.cpu.mode = .running ∧
      (∀ p, p.control = true → b.AgreesAt b.step.board p) ∧
      b.step.board.broken = (b.broken || decide (f.area = .opcode)) ∧
      (∀ p, p ≠ .broken → (∀ i, b.Fetches i → p ∉ i.residue b) → b.AgreesAt b.step.board p) ∧
      ∀ i, b.Fetches i → i.Leaves b b.step.board := by
  refine ⟨(outcome_step_error_iff.1 h).1, ?_, broken_step_of_error h, ?_, ?_⟩
  · exact fun p hp => control_step_of_error h hp
  · exact fun p hp hr => agreesAt_step_of_error h hp hr
  · exact fun i hi => leaves_step_of_error h hi

theorem failed_step_residue_storeRegisters :
    let b := ((loaded [0xF2, 0x55]).setRegister 1 7).setIndex 0xFFE
    b.step.outcome = .error (.outOfRange 0x1000 0x1000) ∧ b.AgreesAt b.step.board .pc ∧
      b.step.board.memory.get 0xFFF = 7 ∧ b.step.board.cpu.index.toNat = 0x1000 := by
  intro b
  have hloaded : (loaded [0xF2, 0x55]).Fetches (.transfer .storeRegisters 2) := fetches_loaded rfl
  have hi : b.Fetches (.transfer .storeRegisters 2) := hloaded.congr rfl rfl
  have hset : b.cpu.index = 0xFFE := rfl
  have hindex : b.cpu.index.toNat = 0xFFE := by
    rw [hset]
    rfl
  have hroom : b.room = 2 := by
    rw [room, hindex]
    rfl
  have hfault : (Instruction.transfer .storeRegisters 2).Faults b (.outOfRange 0x1000 0x1000) := by
    have hlt : memorySize < b.cpu.index.toNat + (2 : RegisterName).val + 1 := by
      rw [hindex]
      decide
    have hf := Instruction.Faults.storeRegisters hlt
    rwa [hindex] at hf
  have hout : b.step.outcome = .error (.outOfRange 0x1000 0x1000) :=
    outcome_step_error_iff.2 ⟨rfl, .instruction hi hfault⟩
  obtain ⟨_, hcontrol, _, _, hleaves⟩ := failed_step_residue hout
  obtain ⟨hstored, hgrown⟩ := hleaves _ hi
  rw [hindex, hroom] at hgrown
  refine ⟨hout, hcontrol .pc rfl, ?_, hgrown⟩
  have hlast := hstored 1 (by rw [hroom]; decide)
  rw [hindex] at hlast
  exact hlast

end Board

end ChipEight
