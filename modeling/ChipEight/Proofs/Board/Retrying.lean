import ChipEight.Proofs.Board.History
import ChipEight.Proofs.Board.Periphery

namespace ChipEight

def Command.retrying : Command → Bool
  | step | tick | key _ | keyOnCpu _ | setBroken _ | setShutdown _ | setScreen _ => true
  | load .. | loadProgram _ | loadRom _ | setRegister .. | setIndex _ | reset | resetCpu => false

namespace Instruction

variable {b : Board} {i : Instruction} {f : Fault}

def storing : Instruction → Bool
  | transfer .storeDigits _ | transfer .storeRegisters _ => true
  | _ => false

def Settled (b : Board) : Instruction → Prop
  | transfer .storeDigits x => ∀ j < b.room,
    b.memory.get (b.cpu.index.toNat + j) = decimalDigit (b.cpu.register x) j
  | transfer .storeRegisters _ => b.room = 0
  | _ => True

theorem Faults.withPeriphery (h : i.Faults b f) (p : Periphery) :
    i.Faults (b.withPeriphery p) f := by
  cases h with
  | ret h => exact .ret h
  | call h => exact .call h
  | keyDown h => exact .keyDown h
  | keyUp h => exact .keyUp h
  | glyph h => exact .glyph h
  | draw hn h => exact .draw hn h
  | storeDigits h => exact .storeDigits h
  | storeRegisters h => exact .storeRegisters h
  | loadRegisters h => exact .loadRegisters h

theorem Settled.withPeriphery (h : i.Settled b) (p : Periphery) :
    i.Settled (b.withPeriphery p) := by
  unfold Settled at h ⊢
  split at h <;> exact h

theorem max_index_of_grown {b' : Board} (h : b'.cpu.index.toNat = b.cpu.index.toNat + b.room) :
    max b'.cpu.index.toNat memorySize = max b.cpu.index.toNat memorySize ∧
      memorySize ≤ b'.cpu.index.toNat := by
  rw [h, Board.room]
  omega

theorem Faults.execute (h : i.Faults b f) : i.Faults (b.execute i).board f := by
  cases h with
  | ret h =>
    rw [Board.execute, Board.ret_of_empty h]
    exact .ret h
  | call h =>
    rw [Board.execute, Board.call_of_full _ h]
    exact .call h
  | keyDown h =>
    rw [Board.execute, Board.board_skip]
    exact .keyDown h
  | keyUp h =>
    rw [Board.execute, Board.board_skip]
    exact .keyUp h
  | glyph h =>
    rw [Board.execute, Board.pointToGlyph_of_lt h]
    exact .glyph h
  | draw hn h =>
    rw [Board.execute, Board.drawSprite_of_not_fits ((Board.fits_eq_false_iff _ _).2 ⟨hn, h⟩)]
    exact .draw hn h
  | storeDigits h =>
    rw [Board.execute, Board.transfer, Board.storeDigits, Board.board_requireRoom]
    exact .storeDigits h
  | @storeRegisters x h =>
    obtain ⟨hmax, hle⟩ := max_index_of_grown (Board.leaves_of_faults (.storeRegisters h)).2
    have hagain := Faults.storeRegisters (x := x) (Nat.lt_succ_of_le (Nat.le_add_right_of_le hle))
    rwa [hmax] at hagain
  | @loadRegisters x h =>
    obtain ⟨hmax, hle⟩ := max_index_of_grown (Board.leaves_of_faults (.loadRegisters h)).2
    have hagain := Faults.loadRegisters (x := x) (Nat.lt_succ_of_le (Nat.le_add_right_of_le hle))
    rwa [hmax] at hagain

theorem Faults.settled (h : i.Faults b f) : i.Settled (b.execute i).board := by
  cases h with
  | ret | call | keyDown | keyUp | glyph | draw | loadRegisters => trivial
  | @storeDigits x h =>
    have hstored := Board.leaves_of_faults (.storeDigits (x := x) h)
    rw [Board.execute, Board.transfer, Board.storeDigits, Board.board_requireRoom] at hstored ⊢
    exact hstored
  | storeRegisters h =>
    obtain ⟨_, hle⟩ := max_index_of_grown (Board.leaves_of_faults (.storeRegisters h)).2
    exact Nat.sub_eq_zero_of_le hle

theorem Faults.memory_execute (h : i.Faults b f) (hs : i.Settled b) :
    (b.execute i).board.memory = b.memory := by
  refine Memory.ext_get fun a _ => ?_
  have hkept (ha : .memory a ∉ i.residue b) : (b.execute i).board.memory.get a = b.memory.get a :=
    Board.agreesAt_of_faults (p := .memory a) h ha
  cases h with
  | ret | call | keyDown | keyUp | glyph | draw => exact hkept nofun
  | loadRegisters =>
    refine hkept ?_
    rintro (hm | ⟨y, _, hm⟩) <;> cases hm
  | storeDigits h =>
    by_cases ha : .memory a ∈ b.stretch b.room
    · obtain ⟨_, ⟨⟩, hle, hlt⟩ := ha
      obtain ⟨j, rfl⟩ := Nat.exists_eq_add_of_le hle
      have hj : j < b.room := Nat.lt_of_add_lt_add_left hlt
      exact (Board.leaves_of_faults (.storeDigits h) j hj).trans (hs j hj).symm
    · exact hkept ha
  | storeRegisters h =>
    have hnone : b.room = 0 := hs
    refine hkept ?_
    rintro (hm | ⟨_, _, hle, hlt⟩)
    · cases hm
    · omega

end Instruction

namespace Board

variable {b : Board} {f : Fault}

theorem Faults.withPeriphery (h : b.Faults f) (p : Periphery) : (b.withPeriphery p).Faults f := by
  cases h with
  | unfetchable h => exact .unfetchable h
  | undecodable h hw => exact .undecodable h hw
  | instruction hi hf => exact .instruction (hi.congr rfl rfl) (hf.withPeriphery p)

structure Stuck (b : Board) (f : Fault) : Prop where
  running : b.cpu.mode = .running
  faults : b.Faults f
  settled : ∀ i, b.Fetches i → i.Settled b

theorem Stuck.outcome (h : b.Stuck f) : b.step.outcome = .error f :=
  outcome_step_error_iff.2 ⟨h.running, h.faults⟩

theorem Stuck.withPeriphery (h : b.Stuck f) (p : Periphery) : (b.withPeriphery p).Stuck f :=
  ⟨h.running, h.faults.withPeriphery p, fun i hi =>
    (h.settled i (hi.congr rfl rfl)).withPeriphery p⟩

theorem Stuck.memory_step (h : b.Stuck f) : b.step.board.memory = b.memory := by
  obtain ⟨hrun, hf, hs⟩ := h
  cases hf with
  | unfetchable hpc => rw [step_of_unfetchable hrun (by omega)]
  | undecodable hpc hw =>
    rw [step_of_undecodable hrun (by omega) hw]
    rfl
  | instruction hi hfi =>
    rw [board_step_of_faults hrun hi hfi]
    exact hfi.memory_execute (hs _ hi)

theorem wordAtPc_congr {b' : Board} (hpc : b'.cpu.pc = b.cpu.pc)
    (hhigh : b'.memory.get b.cpu.pc.toNat = b.memory.get b.cpu.pc.toNat)
    (hlow : b'.memory.get (b.cpu.pc.toNat + 1) = b.memory.get (b.cpu.pc.toNat + 1)) :
    b'.wordAtPc = b.wordAtPc := by
  rw [wordAtPc, wordAtPc, hpc, hhigh, hlow]

theorem stuck_step (h : b.step.outcome = .error f) (hword : b.step.board.wordAtPc = b.wordAtPc) :
    b.step.board.Stuck f := by
  obtain ⟨hrun, hf⟩ := outcome_step_error_iff.1 h
  have hmode : b.step.board.cpu.mode = .running :=
    Eq.trans (control_step_of_error (p := .mode) h rfl) hrun
  have hpc : b.step.board.cpu.pc = b.cpu.pc := control_step_of_error (p := .pc) h rfl
  have hfetches {i : Instruction} : b.step.board.Fetches i ↔ b.Fetches i := by
    constructor
    · exact fun hi => ⟨hpc ▸ hi.inside, hi.word.trans hword⟩
    · exact fun hi => ⟨hpc.symm ▸ hi.inside, hi.word.trans hword.symm⟩
  cases hf with
  | unfetchable hout =>
    rw [step_of_unfetchable hrun (by omega)]
    refine ⟨hrun, .unfetchable hout, fun i hi => ?_⟩
    have hin : b.cpu.pc.toNat + 1 < memorySize := hi.inside
    omega
  | undecodable hlt hw =>
    have hw' : Instruction.decode b.step.board.wordAtPc = none := by rwa [hword]
    refine ⟨hmode, ?_, fun i hi => absurd (hw'.symm.trans hi.decode) nofun⟩
    have hagain := Faults.undecodable (hpc.symm ▸ hlt) hw'
    rwa [hword] at hagain
  | @instruction i _ hi hfi =>
    have hboard := board_step_of_faults hrun hi hfi
    refine ⟨hmode, .instruction (hfetches.2 hi) (hboard ▸ hfi.execute), fun j hj => ?_⟩
    obtain rfl := hi.unique (hfetches.1 hj)
    exact hboard ▸ hfi.settled

theorem Stuck.step (h : b.Stuck f) : b.step.board.Stuck f := by
  have hpc : b.step.board.cpu.pc = b.cpu.pc := control_step_of_error (p := .pc) h.outcome rfl
  have hmemory := h.memory_step
  exact stuck_step h.outcome (wordAtPc_congr hpc (by rw [hmemory]) (by rw [hmemory]))

theorem handleKey_of_running (hrun : b.cpu.mode = .running) (e : KeyEvent) :
    (b.handleKey e).board = b.withPeriphery (b.handleKey e).board.periphery := by
  rcases Nat.lt_or_ge 15 e.key with hno | hkey
  · rw [b.handleKey_of_noKey hno]
    rfl
  · cases hd : e.down with
    | true =>
      rw [b.handleKey_of_down hkey hd, press_of_running hrun]
      rfl
    | false =>
      rw [b.handleKey_of_up hkey hd]
      rfl

theorem Stuck.apply (h : b.Stuck f) {c : Command} (hc : c.retrying = true) :
    (b.apply c).Stuck f := by
  cases c with
  | step => exact h.step
  | tick => exact h.withPeriphery b.tick.1.periphery
  | key e =>
    rw [Board.apply, handleKey_of_running h.running e]
    exact h.withPeriphery _
  | keyOnCpu key =>
    rw [Board.apply, board_pressOnCpu_of_running h.running]
    exact h
  | setBroken value => exact h.withPeriphery (b.setBroken value).periphery
  | setShutdown value => exact h.withPeriphery (b.setShutdown value).periphery
  | setScreen screen => exact h.withPeriphery { b.periphery with screen }
  | load data origin | loadProgram data | loadRom rom | setRegister x value | setIndex index | reset
  | resetCpu => cases hc

theorem Stuck.after (h : b.Stuck f) {history : List Command}
    (hh : ∀ c ∈ history, c.retrying = true) : (b.after history).Stuck f := by
  induction history generalizing b with
  | nil => exact h
  | cons c history ih =>
    obtain ⟨hc, hrest⟩ := List.forall_mem_cons.1 hh
    exact ih (h.apply hc) hrest

def OverwritesItself (b : Board) : Prop :=
  ∃ i, b.Fetches i ∧ i.storing = true ∧
    (b.step.board.memory.get b.cpu.pc.toNat ≠ b.memory.get b.cpu.pc.toNat ∨
      b.step.board.memory.get (b.cpu.pc.toNat + 1) ≠ b.memory.get (b.cpu.pc.toNat + 1))

theorem memory_not_mem_residue {i : Instruction} (h : i.storing = false) (a : Nat) :
    .memory a ∉ i.residue b := by
  intro hm
  unfold Instruction.residue at hm
  split at hm
  · cases h
  · cases h
  · obtain hm | ⟨y, _, hm⟩ := hm <;> cases hm
  · cases hm
  · exact hm

theorem wordAtPc_step_of_error (h : b.step.outcome = .error f) (hself : ¬b.OverwritesItself) :
    b.step.board.wordAtPc = b.wordAtPc := by
  have hpc : b.step.board.cpu.pc = b.cpu.pc := control_step_of_error (p := .pc) h rfl
  by_cases hstores : ∃ i, b.Fetches i ∧ i.storing = true
  · obtain ⟨i, hi, hstoring⟩ := hstores
    by_contra hne
    refine hself ⟨i, hi, hstoring, ?_⟩
    by_contra hsame
    obtain ⟨hhigh, hlow⟩ := not_or.1 hsame
    exact hne (wordAtPc_congr hpc (not_not.1 hhigh) (not_not.1 hlow))
  · have hkept (a : Nat) : b.step.board.memory.get a = b.memory.get a :=
      agreesAt_step_of_error (p := .memory a) h nofun fun i hi =>
        memory_not_mem_residue (Bool.eq_false_of_not_eq_true fun hs => hstores ⟨i, hi, hs⟩) a
    exact wordAtPc_congr hpc (hkept _) (hkept _)

theorem failed_step_fails_again (h : b.step.outcome = .error f) (hself : ¬b.OverwritesItself)
    {history : List Command} (hh : ∀ c ∈ history, c.retrying = true) :
    (b.step.board.after history).step.outcome = .error f :=
  ((stuck_step h (wordAtPc_step_of_error h hself)).after hh).outcome

theorem failed_step_fails_again_storeRegisters :
    let b := ((loaded [0xF2, 0x55]).setRegister 1 7).setIndex 0xFFE
    let history : List Command := [.tick, .key ⟨3, true⟩, .step, .setBroken true, .step]
    (b.step.outcome = .error (.outOfRange 0x1000 0x1000) ∧ ¬b.OverwritesItself ∧
      ∀ c ∈ history, c.retrying = true) ∧
      (b.step.board.after history).step.outcome = .error (.outOfRange 0x1000 0x1000) := by
  intro b history
  have hloaded : (loaded [0xF2, 0x55]).Fetches (.transfer .storeRegisters 2) := fetches_loaded rfl
  have hi : b.Fetches (.transfer .storeRegisters 2) := hloaded.congr rfl rfl
  have hindex : b.cpu.index.toNat = 0xFFE := rfl
  have hover : memorySize < b.cpu.index.toNat + (2 : RegisterName).val + 1 := by
    rw [hindex]
    decide
  have hout : b.step.outcome = .error (.outOfRange 0x1000 0x1000) :=
    outcome_step_error_iff.2 ⟨rfl, .instruction hi (.storeRegisters hover)⟩
  have hself : ¬b.OverwritesItself := by
    have hkept (a : Nat) (ha : a < 0xFFE) : b.step.board.memory.get a = b.memory.get a := by
      refine agreesAt_step_of_error (p := .memory a) hout nofun fun j hj => ?_
      obtain rfl := hi.unique hj
      rintro (hm | ⟨_, ⟨⟩, hle, _⟩)
      · cases hm
      · omega
    rintro ⟨_, _, _, hhigh | hlow⟩
    · exact hhigh (hkept 0x200 (by decide))
    · exact hlow (hkept 0x201 (by decide))
  have hh : ∀ c ∈ history, c.retrying = true := by simp [history, Command.retrying]
  exact ⟨⟨hout, hself, hh⟩, failed_step_fails_again hout hself hh⟩

example :
    let b := { loaded [] with
      cpu := { (loaded []).cpu with pc := 0xFFE, index := 0xFFF }
      memory := Memory.blank.store 0xFFE [0xF1, 0x55] }
    b.step.outcome = .error (.outOfRange 0x1000 0x1000) ∧
      b.step.board.step.outcome = .error (.undecodable 0xF100) := by
  decide +kernel

end Board

end ChipEight
