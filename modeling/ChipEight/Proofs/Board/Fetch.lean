import ChipEight.Board.Step
import ChipEight.Proofs.Instruction.Coding
import ChipEight.Proofs.Memory.Access

namespace ChipEight

namespace Board

def wordAtPc (b : Board) : Word :=
  .ofBytes (b.memory.get b.cpu.pc.toNat) (b.memory.get (b.cpu.pc.toNat + 1))

structure Fetches (b : Board) (i : Instruction) : Prop where
  inside : b.cpu.pc.toNat + 1 < memorySize
  word : i.word = b.wordAtPc

theorem Fetches.decode {b : Board} {i : Instruction} (h : b.Fetches i) :
    Instruction.decode b.wordAtPc = some i :=
  Instruction.decode_eq_some_iff.2 h.word

theorem Fetches.unique {b : Board} {i j : Instruction} (hi : b.Fetches i) (hj : b.Fetches j) :
    i = j :=
  Option.some.inj (hi.decode.symm.trans hj.decode)

theorem Fetches.congr {b b' : Board} {i : Instruction} (h : b.Fetches i)
    (hpc : b'.cpu.pc = b.cpu.pc) (hm : b'.memory = b.memory) : b'.Fetches i := by
  refine ⟨?_, ?_⟩
  · rw [hpc]
    exact h.inside
  · rw [wordAtPc, hpc, hm]
    exact h.word

theorem step_of_awaiting {b : Board} {x : RegisterName} (h : b.cpu.mode = .awaitingKey x) :
    b.step = { board := b, outcome := .ok .wait } := by
  rw [step, h]

theorem step_of_unfetchable {b : Board} (hrun : b.cpu.mode = .running)
    (h : memorySize ≤ b.cpu.pc.toNat + 1) :
    b.step =
      { board := b
        outcome := .error (.outOfRange (max b.cpu.pc.toNat memorySize) memorySize) } := by
  rw [step, hrun]
  simp only [b.memory.word_of_le h]

theorem step_of_inside {b : Board} (hrun : b.cpu.mode = .running)
    (h : b.cpu.pc.toNat + 1 < memorySize) : b.step = b.perform b.wordAtPc := by
  rw [step, hrun]
  simp only [b.memory.word_of_lt h, wordAtPc]

theorem step_of_undecodable {b : Board} (hrun : b.cpu.mode = .running)
    (h : b.cpu.pc.toNat + 1 < memorySize) (hw : Instruction.decode b.wordAtPc = none) :
    b.step =
      { board := b.setBroken true
        outcome := .error (.undecodable b.wordAtPc)
        log := [.undecodable b.cpu.pc b.wordAtPc] } := by
  rw [step_of_inside hrun h, perform, hw]

theorem step_of_fetches {b : Board} {i : Instruction} (hrun : b.cpu.mode = .running)
    (h : b.Fetches i) :
    b.step =
      { (b.execute i).finish with
        log := .executing b.cpu.pc b.wordAtPc i :: (b.execute i).finish.log } := by
  rw [step_of_inside hrun h.inside, perform, h.decode]

theorem running_or_awaiting (b : Board) :
    b.cpu.mode = .running ∨ ∃ x, b.cpu.mode = .awaitingKey x := by
  cases h : b.cpu.mode with
  | running => exact .inl rfl
  | awaitingKey x => exact .inr ⟨x, rfl⟩

theorem fetch_cases (b : Board) :
    memorySize ≤ b.cpu.pc.toNat + 1 ∨
      b.cpu.pc.toNat + 1 < memorySize ∧ Instruction.decode b.wordAtPc = none ∨
      ∃ i, b.Fetches i := by
  rcases Nat.lt_or_ge (b.cpu.pc.toNat + 1) memorySize with h | h
  · cases hw : Instruction.decode b.wordAtPc with
    | none => exact .inr (.inl ⟨h, rfl⟩)
    | some i => exact .inr (.inr ⟨i, h, Instruction.decode_eq_some_iff.1 hw⟩)
  · exact .inl h

def loaded (program : List UInt8) : Board :=
  ((Board.powerOn .beeper programStart (.cycle [171])).loadProgram program).board

theorem memory_loaded (program : List UInt8) :
    (loaded program).memory = Memory.initial.store programStart.toNat program :=
  Memory.initial.memory_writeAll programStart.toNat program

theorem pc_loaded (program : List UInt8) : (loaded program).cpu.pc.toNat = 0x200 := rfl

theorem fetches_loaded {i : Instruction} {high low : UInt8} {rest : List UInt8}
    (h : i.word = .ofBytes high low) : (loaded (high :: low :: rest)).Fetches i := by
  have hstart : programStart.toNat = 0x200 := rfl
  have hlow : 0x201 < 0x200 + (rest.length + 1 + 1) := by omega
  refine ⟨?_, ?_⟩
  · rw [pc_loaded, memorySize]
    omega
  · rw [h, wordAtPc, memory_loaded, pc_loaded, hstart, Memory.get_store, Memory.get_store]
    simp [memorySize, hlow]

end Board

namespace Effect

theorem finish_of_ok {e : Effect} {advance : Advance} {notice : Notice}
    (h : e.outcome = .ok (advance, notice)) :
    e.finish =
      { board := { e.board with cpu := { e.board.cpu with pc := advance.apply e.board.cpu.pc } }
        outcome := .ok notice
        log := e.log } := by
  rw [finish, h]

theorem finish_of_error {e : Effect} {f : Fault} (h : e.outcome = .error f) :
    e.finish = { board := e.board, outcome := .error f, log := e.log } := by
  rw [finish, h]

theorem finish_outcome_error_iff {e : Effect} {f : Fault} :
    e.finish.outcome = .error f ↔ e.outcome = .error f := by
  cases h : e.outcome with
  | ok r => simp [finish_of_ok h]
  | error g => simp [finish_of_error h]

@[simp]
theorem log_finish (e : Effect) : e.finish.log = e.log := by
  unfold finish
  split <;> rfl

end Effect

end ChipEight
