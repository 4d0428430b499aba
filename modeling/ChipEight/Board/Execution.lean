import ChipEight.Advance
import ChipEight.Board.Basic
import ChipEight.Instruction.Arithmetic

namespace ChipEight

inductive Notice where
  | nothing
  | wait
  | draw
  deriving DecidableEq, Repr

structure Effect where
  board : Board
  outcome : Except Fault (Advance × Notice)
  log : List Event := []

def Location.address (l : Location) : UInt16 :=
  UInt16.ofNat l.val

namespace Board

def proceed (b : Board) (advance : Advance := .next) (notice : Notice := .nothing) : Effect :=
  { board := b, outcome := .ok (advance, notice) }

def abort (b : Board) (f : Fault) : Effect :=
  { board := b, outcome := .error f }

def setRegister (b : Board) (x : RegisterName) (value : UInt8) : Board :=
  { b with cpu := b.cpu.setRegister x value }

def setFlag (b : Board) (flag : Bool) : Board :=
  { b with cpu := b.cpu.setFlag flag }

def setIndex (b : Board) (index : UInt16) : Board :=
  { b with cpu := { b.cpu with index } }

def storeAtIndex (b : Board) (data : List UInt8) : Board :=
  { b with memory := b.memory.store b.cpu.index.toNat data }

def fits (b : Board) (count : Nat) : Bool :=
  count ≤ Memory.room b.cpu.index.toNat

def overrun (b : Board) : Fault :=
  Memory.overrun b.cpu.index.toNat

def requireRoom (b : Board) (count : Nat) (changed : Board) : Effect :=
  if b.fits count then changed.proceed else changed.abort b.overrun

def holds (b : Board) : Condition → Except Fault Bool
  | .equals x nn => .ok (b.cpu.register x == nn)
  | .differs x nn => .ok (b.cpu.register x != nn)
  | .same x y => .ok (b.cpu.register x == b.cpu.register y)
  | .distinct x y => .ok (b.cpu.register x != b.cpu.register y)
  | .keyDown x => b.keypad.isDown (b.cpu.register x).toNat
  | .keyUp x => (b.keypad.isDown (b.cpu.register x).toNat).map not

def skip (b : Board) (c : Condition) : Effect :=
  match b.holds c with
  | .ok holds => b.proceed (.skipIf holds)
  | .error f => b.abort f

def call (b : Board) (nnn : Location) : Effect :=
  match b.cpu.stack.push (Advance.next.apply b.cpu.pc) with
  | .ok stack => proceed { b with cpu := { b.cpu with stack } } (.jump nnn.address)
  | .error f => b.abort f

def ret (b : Board) : Effect :=
  match b.cpu.stack.pop with
  | .ok (target, stack) =>
    { proceed { b with cpu := { b.cpu with stack } } (.jump target) with
      log := [.returning target] }
  | .error f => b.abort f

def combine (b : Board) (op : Arithmetic) (x y : RegisterName) : Board :=
  match op.result (b.cpu.register x) (b.cpu.register y) with
  | (value, none) => b.setRegister x value
  | (value, some flag) => (b.setRegister x value).setFlag flag

def randomize (b : Board) (x : RegisterName) (mask : UInt8) : Board :=
  let (byte, random) := b.cpu.random.next
  { b with cpu := { b.cpu with random }.setRegister x (byte &&& mask) }

def drawSprite (b : Board) (x y : RegisterName) (rows : Nat) : Effect :=
  let sprite := b.memory.window b.cpu.index.toNat rows
  let (screen, off) :=
    b.screen.flipSprite (b.cpu.register x).toNat (b.cpu.register y).toNat sprite
  let drawn := { b with screen }
  -- The rows in front of one outside of the memory stay drawn, and the flag is left alone.
  if b.fits rows then (drawn.setFlag off).proceed .next .draw else drawn.abort b.overrun

def decimalDigits (v : UInt8) : List UInt8 :=
  [v / 100, v / 10 % 10, v % 10]

def firstRegisters (b : Board) (x : RegisterName) : List UInt8 :=
  b.cpu.registers.toList.take (x.val + 1)

def advanceIndex (b : Board) (count : Nat) : Board :=
  b.setIndex (b.cpu.index + UInt16.ofNat count)

def fillRegisters (b : Board) (values : List UInt8) : Board :=
  { b with cpu := { b.cpu with
      registers := b.cpu.registers.mapIdx fun i old => values.getD i old } }

def storeDigits (b : Board) (x : RegisterName) : Effect :=
  b.requireRoom 3 (b.storeAtIndex (decimalDigits (b.cpu.register x)))

def storeRegisters (b : Board) (x : RegisterName) : Effect :=
  let count := x.val + 1
  let stored := min count (Memory.room b.cpu.index.toNat)
  b.requireRoom count ((b.storeAtIndex (b.firstRegisters x)).advanceIndex stored)

def loadRegisters (b : Board) (x : RegisterName) : Effect :=
  let count := x.val + 1
  let values := b.memory.window b.cpu.index.toNat count
  b.requireRoom count ((b.fillRegisters values).advanceIndex values.length)

def transfer (b : Board) (x : RegisterName) : Transfer → Effect
  | .readDelay => (b.setRegister x b.cpu.delay).proceed
  | .awaitKey =>
    { proceed { b with cpu := { b.cpu with mode := .awaitingKey x } } .next .wait with
      log := [.keyAwaited x] }
  | .setDelay => proceed { b with cpu := { b.cpu with delay := b.cpu.register x } }
  | .setSound => proceed { b with cpu := { b.cpu with sound := b.cpu.register x } }
  | .addToIndex => (b.setIndex (b.cpu.index + (b.cpu.register x).toUInt16)).proceed
  | .pointToGlyph =>
    match Font.glyph (b.cpu.register x).toNat with
    | .ok address => (b.setIndex address).proceed
    | .error f => b.abort f
  | .storeDigits => b.storeDigits x
  | .storeRegisters => b.storeRegisters x
  | .loadRegisters => b.loadRegisters x

def execute (b : Board) : Instruction → Effect
  | .clear => proceed { b with screen := b.screen.clear } .next .draw
  | .ret => b.ret
  | .jump nnn => b.proceed (.jump nnn.address)
  | .call nnn => b.call nnn
  | .skip c => b.skip c
  | .load x nn => (b.setRegister x nn).proceed
  | .add x nn => (b.setRegister x (b.cpu.register x + nn)).proceed
  | .arithmetic op x y => (b.combine op x y).proceed
  | .loadIndex nnn => (b.setIndex nnn.address).proceed
  | .jumpOffset nnn => b.proceed (.jump ((b.cpu.register 0).toUInt16 + nnn.address))
  | .random x nn => (b.randomize x nn).proceed
  | .draw x y n => b.drawSprite x y n.val
  | .transfer op x => b.transfer x op

end Board

end ChipEight
