import ChipEight.Proofs.Board.Fetch

namespace ChipEight

def Condition.inward : Condition → Bool
  | keyDown _ | keyUp _ => false
  | equals .. | differs .. | same .. | distinct .. => true

def Transfer.inward : Transfer → Bool
  | readDelay | setDelay | setSound => false
  | awaitKey | addToIndex | pointToGlyph | storeDigits | storeRegisters | loadRegisters => true

def Instruction.inward : Instruction → Bool
  | clear | random .. | draw .. => false
  | skip c => c.inward
  | transfer op _ => op.inward
  | ret | jump _ | call _ | load .. | add .. | arithmetic .. | loadIndex _ | jumpOffset _ => true

structure Periphery where
  delay : UInt8
  sound : UInt8
  start : UInt16
  random : RandomSource
  screen : Screen
  tone : Tone
  keypad : Keypad
  broken : Bool
  shutdown : Bool

namespace Board

def periphery (b : Board) : Periphery where
  delay := b.cpu.delay
  sound := b.cpu.sound
  start := b.cpu.start
  random := b.cpu.random
  screen := b.screen
  tone := b.tone
  keypad := b.keypad
  broken := b.broken
  shutdown := b.shutdown

def withPeriphery (b : Board) (p : Periphery) : Board where
  cpu :=
    { b.cpu with
      delay := p.delay
      sound := p.sound
      start := p.start
      random := p.random }
  memory := b.memory
  screen := p.screen
  tone := p.tone
  keypad := p.keypad
  broken := p.broken
  shutdown := p.shutdown

def mapPeriphery (b : Board) (h : Periphery → Periphery) : Board :=
  b.withPeriphery (h b.periphery)

end Board

def Effect.withPeriphery (e : Effect) (p : Periphery) : Effect :=
  { e with board := e.board.withPeriphery p }

def Effect.mapPeriphery (e : Effect) (h : Periphery → Periphery) : Effect :=
  { e with board := e.board.mapPeriphery h }

def Reply.mapPeriphery {α : Type} (r : Reply α) (h : Periphery → Periphery) : Reply α :=
  { r with board := r.board.mapPeriphery h }

namespace Board

variable {b : Board} {i : Instruction}

theorem requireRoom_withPeriphery (b changed : Board) (count : Nat) (p : Periphery) :
    (b.withPeriphery p).requireRoom count (changed.withPeriphery p) =
      (b.requireRoom count changed).withPeriphery p := by
  have hfits : (b.withPeriphery p).fits count = b.fits count := rfl
  unfold requireRoom
  rw [hfits]
  split <;> rfl

theorem skip_withPeriphery {c : Condition} (hc : c.inward = true) (b : Board) (p : Periphery) :
    (b.withPeriphery p).skip c = (b.skip c).withPeriphery p := by
  cases c with
  | keyDown x | keyUp x => cases hc
  | equals x nn | differs x nn | same x y | distinct x y => rfl

theorem call_withPeriphery (b : Board) (nnn : Location) (p : Periphery) :
    (b.withPeriphery p).call nnn = (b.call nnn).withPeriphery p := by
  have hpush : (b.withPeriphery p).cpu.stack.push (Advance.next.apply (b.withPeriphery p).cpu.pc) =
      b.cpu.stack.push (Advance.next.apply b.cpu.pc) := rfl
  unfold call
  rw [hpush]
  split <;> rfl

theorem ret_withPeriphery (b : Board) (p : Periphery) :
    (b.withPeriphery p).ret = b.ret.withPeriphery p := by
  have hpop : (b.withPeriphery p).cpu.stack.pop = b.cpu.stack.pop := rfl
  unfold ret
  rw [hpop]
  split <;> rfl

theorem transfer_withPeriphery {op : Transfer} (hop : op.inward = true) (b : Board)
    (x : RegisterName) (p : Periphery) :
    (b.withPeriphery p).transfer x op = (b.transfer x op).withPeriphery p := by
  cases op with
  | readDelay | setDelay | setSound => cases hop
  | awaitKey | addToIndex => rfl
  | pointToGlyph =>
    have hregister : (b.withPeriphery p).cpu.register x = b.cpu.register x := rfl
    unfold transfer
    rw [hregister]
    cases Font.glyph (b.cpu.register x).toNat <;> rfl
  | storeDigits =>
    exact requireRoom_withPeriphery b (b.storeAtIndex (decimalDigits (b.cpu.register x))) 3 p
  | storeRegisters =>
    let stored := min (x.val + 1) (Memory.room b.cpu.index.toNat)
    exact requireRoom_withPeriphery b
      ((b.storeAtIndex (b.firstRegisters x)).advanceIndex stored) _ p
  | loadRegisters =>
    let values := b.memory.window b.cpu.index.toNat (x.val + 1)
    exact requireRoom_withPeriphery b ((b.fillRegisters values).advanceIndex values.length) _ p

theorem combine_withPeriphery (b : Board) (op : Arithmetic) (x y : RegisterName) (p : Periphery) :
    (b.withPeriphery p).combine op x y = (b.combine op x y).withPeriphery p := by
  cases op <;> rfl

theorem execute_withPeriphery (hi : i.inward = true) (b : Board) (p : Periphery) :
    (b.withPeriphery p).execute i = (b.execute i).withPeriphery p := by
  cases i with
  | clear | random x nn | draw x y n => cases hi
  | ret => exact ret_withPeriphery b p
  | call nnn => exact call_withPeriphery b nnn p
  | skip c => exact skip_withPeriphery hi b p
  | arithmetic op x y => exact congrArg proceed (combine_withPeriphery b op x y p)
  | transfer op x => exact transfer_withPeriphery hi b x p
  | jump nnn | load x nn | add x nn | loadIndex nnn | jumpOffset nnn => rfl

theorem periphery_execute (hi : i.inward = true) (b : Board) :
    (b.execute i).board.periphery = b.periphery :=
  congrArg (fun e : Effect => e.board.periphery) (execute_withPeriphery hi b b.periphery)

theorem execute_mapPeriphery (hi : i.inward = true) (b : Board) (h : Periphery → Periphery) :
    (b.mapPeriphery h).execute i = (b.execute i).mapPeriphery h := by
  rw [mapPeriphery, execute_withPeriphery hi, ← periphery_execute hi b]
  rfl

end Board

end ChipEight
