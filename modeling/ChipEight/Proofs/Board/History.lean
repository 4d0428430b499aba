import ChipEight.Proofs.Board.Flow
import ChipEight.Proofs.Board.Keys
import ChipEight.Proofs.Board.Residue

namespace ChipEight

inductive Command where
  | step
  | tick
  | key (e : KeyEvent)
  | keyOnCpu (key : Nat)
  | load (data : List UInt8) (origin : UInt16)
  | loadProgram (data : List UInt8)
  | loadRom (rom : Rom)
  | setRegister (x : Nat) (value : UInt8)
  | setIndex (index : UInt16)
  | setBroken (value : Bool)
  | setShutdown (value : Bool)
  | setScreen (screen : Screen)
  | reset
  | resetCpu

namespace Board

def writeRegister (b : Board) (x : Nat) (value : UInt8) : Board :=
  match b.cpu.writeRegister x value with
  | .ok cpu => { b with cpu }
  | .error _ => b

def apply (b : Board) : Command → Board
  | .step => b.step.board
  | .tick => b.tick.1
  | .key e => (b.handleKey e).board
  | .keyOnCpu key => (b.pressOnCpu key).board
  | .load data origin => (b.load data origin).board
  | .loadProgram data => (b.loadProgram data).board
  | .loadRom rom => (b.loadRom rom).board
  | .setRegister x value => b.writeRegister x value
  | .setIndex index => b.setIndex index
  | .setBroken value => b.setBroken value
  | .setShutdown value => b.setShutdown value
  | .setScreen screen => { b with screen }
  | .reset => b.reset
  | .resetCpu => { b with cpu := b.cpu.reset }

def after (b : Board) (history : List Command) : Board :=
  history.foldl apply b

def ControlAgrees (b b' : Board) : Prop :=
  b.AgreesAt b' .start ∧ b.AgreesAt b' .pc ∧ b.AgreesAt b' .stack

theorem controlAgrees_handleKey (b : Board) (e : KeyEvent) :
    b.ControlAgrees (b.handleKey e).board :=
  ⟨b.agreesAt_handleKey e rfl, b.agreesAt_handleKey e rfl, b.agreesAt_handleKey e rfl⟩

theorem controlAgrees_pressOnCpu (b : Board) (key : Nat) :
    b.ControlAgrees (b.pressOnCpu key).board :=
  ⟨b.agreesAt_pressOnCpu key rfl, b.agreesAt_pressOnCpu key rfl, b.agreesAt_pressOnCpu key rfl⟩

theorem agreesAt_writeRegister (b : Board) (x : Nat) (value : UInt8) {p : Part}
    (hp : ∀ y, p ≠ .register y) : b.AgreesAt (b.writeRegister x value) p := by
  unfold writeRegister Cpu.writeRegister
  by_cases hx : x < registerCount
  · rw [dif_pos hx]
    exact b.agreesAt_setRegister ⟨x, hx⟩ value (hp _)
  · rw [dif_neg hx]
    exact .refl b p

theorem controlAgrees_writeRegister (b : Board) (x : Nat) (value : UInt8) :
    b.ControlAgrees (b.writeRegister x value) :=
  ⟨b.agreesAt_writeRegister x value nofun, b.agreesAt_writeRegister x value nofun,
    b.agreesAt_writeRegister x value nofun⟩

structure Confined (origin : UInt16) (b : Board) : Prop where
  start : b.cpu.start = origin
  pc : b.cpu.pc = origin ∨ b.cpu.pc.toNat ≤ 0x10FE
  frames : ∀ a ∈ b.cpu.stack.frames, 2 ≤ a.toNat ∧ a.toNat ≤ 0x1000

variable {origin : UInt16} {b b' : Board}

theorem Confined.of_agrees (h : b.Confined origin) (ha : b.ControlAgrees b') :
    b'.Confined origin := by
  obtain ⟨hs, hp, hf⟩ := ha
  refine ⟨Eq.trans hs h.start, ?_, ?_⟩
  · exact (show b'.cpu.pc = b.cpu.pc from hp) ▸ h.pc
  · exact (show b'.cpu.stack = b.cpu.stack from hf) ▸ h.frames

theorem target_le {i : Instruction} {pc : Nat} (hin : b.cpu.pc.toNat + 1 < memorySize)
    (hframes : ∀ a ∈ b.cpu.stack.frames, 2 ≤ a.toNat ∧ a.toNat ≤ 0x1000) (h : i.Target b pc) :
    pc ≤ 0x10FE := by
  rw [memorySize] at hin
  cases i with
  | jump nnn | call nnn =>
    obtain rfl : pc = nnn.val := h
    omega
  | ret =>
    obtain ⟨a, ha, rfl⟩ := Option.map_eq_some_iff.1 h
    have hle := (hframes a (List.mem_of_mem_head? ha)).2
    omega
  | jumpOffset nnn =>
    obtain rfl : pc = (b.cpu.register 0).toNat + nnn.val := h
    have hv := (b.cpu.register 0).toNat_lt
    omega
  | skip c =>
    rcases h with ⟨_, h⟩ | ⟨_, h⟩ <;> omega
  | _ =>
    obtain rfl : pc = b.cpu.pc.toNat + 2 := h
    omega

theorem framesAfter_bounds {i : Instruction} (hin : b.cpu.pc.toNat + 1 < memorySize)
    (hframes : ∀ a ∈ b.cpu.stack.frames, 2 ≤ a.toNat ∧ a.toNat ≤ 0x1000) :
    ∀ a ∈ i.framesAfter b, 2 ≤ a.toNat ∧ a.toNat ≤ 0x1000 := by
  cases i with
  | call nnn =>
    intro a ha
    rcases List.mem_cons.1 ha with rfl | ha
    · have hnext : (b.cpu.pc + 2).toNat = b.cpu.pc.toNat + 2 := Advance.toNat_next hin
      rw [memorySize] at hin
      omega
    · exact hframes a ha
  | ret => exact fun a ha => hframes a (List.mem_of_mem_tail ha)
  | _ => exact hframes

theorem controlAgrees_step_of_error {f : Fault} (h : b.step.outcome = .error f) :
    b.ControlAgrees b.step.board :=
  ⟨control_step_of_error h rfl, control_step_of_error h rfl, control_step_of_error h rfl⟩

theorem Confined.step (h : b.Confined origin) : b.step.board.Confined origin := by
  rcases b.running_or_awaiting with hrun | ⟨x, hwait⟩
  · cases hout : b.step.outcome with
    | error f => exact h.of_agrees (controlAgrees_step_of_error hout)
    | ok notice =>
      obtain ⟨i, hi⟩ := fetches_of_ok hrun hout
      obtain ⟨_, htarget, hframes⟩ := flow_step_of_ok hrun hi hout
      have hstart : b.AgreesAt b.step.board .start :=
        agreesAt_step_of_ok hrun hi hout nofun (Part.not_mem_footprint b i rfl)
      refine ⟨Eq.trans hstart h.start, .inr (target_le hi.inside h.frames htarget), ?_⟩
      rw [hframes]
      exact framesAfter_bounds hi.inside h.frames
  · rw [step_of_awaiting hwait]
    exact h

theorem Confined.apply (h : b.Confined origin) (c : Command) : (b.apply c).Confined origin := by
  cases c with
  | step => exact h.step
  | tick => exact h.of_agrees ⟨rfl, rfl, rfl⟩
  | key e => exact h.of_agrees (b.controlAgrees_handleKey e)
  | keyOnCpu key => exact h.of_agrees (b.controlAgrees_pressOnCpu key)
  | load data origin | loadProgram data | loadRom rom => exact h.of_agrees ⟨rfl, rfl, rfl⟩
  | setRegister x value => exact h.of_agrees (b.controlAgrees_writeRegister x value)
  | setIndex index | setBroken value | setShutdown value | setScreen screen =>
    exact h.of_agrees ⟨rfl, rfl, rfl⟩
  | reset => exact ⟨h.start, .inl h.start, nofun⟩
  | resetCpu => exact ⟨h.start, .inl h.start, nofun⟩

theorem Confined.after (h : b.Confined origin) (history : List Command) :
    (b.after history).Confined origin := by
  induction history generalizing b with
  | nil => exact h
  | cons c history ih => exact ih (h.apply c)

theorem confined_powerOn (kind : ToneKind) (origin : UInt16) (random : RandomSource)
    (memory : Memory) :
    ({ Board.powerOn kind origin random with memory } : Board).Confined origin :=
  ⟨rfl, .inl rfl, nofun⟩

theorem history_control (kind : ToneKind) (origin : UInt16) (random : RandomSource)
    (memory : Memory) (history : List Command) :
    let b := ({ Board.powerOn kind origin random with memory } : Board).after history
    (b.cpu.pc = origin ∨ b.cpu.pc.toNat ≤ 0x10FE) ∧
      b.cpu.stack.depth ≤ 16 ∧ (∀ a ∈ b.cpu.stack.frames, 2 ≤ a.toNat ∧ a.toNat ≤ 0x1000) ∧
      (∀ x, b.cpu.mode = .awaitingKey x → x.val < 16) ∧
      ∀ i, b.cpu.mode = .running → b.Fetches i →
        b.cpu.pc.toNat + 4 ≤ 0xFFFF ∧
        (∀ nnn, i = .jumpOffset nnn → (b.cpu.register 0).toNat + nnn.val ≤ 0xFFFF) ∧
        ∀ notice, b.step.outcome = .ok notice → i.Target b b.step.board.cpu.pc.toNat := by
  intro b
  have hb : b.Confined origin := (confined_powerOn kind origin random memory).after history
  refine ⟨hb.pc, b.cpu.stack.depth_le, hb.frames, fun x _ => x.isLt, fun i hrun hi => ?_⟩
  have hin := hi.inside
  rw [memorySize] at hin
  refine ⟨by omega, fun nnn _ => ?_, fun notice hok => (flow_step_of_ok hrun hi hok).2.1⟩
  have hv := (b.cpu.register 0).toNat_lt
  omega

end Board

end ChipEight
