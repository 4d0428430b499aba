import ChipEight.CallStack
import ChipEight.Countdown
import ChipEight.Event
import ChipEight.RandomSource

namespace ChipEight

inductive Mode where
  | running
  | awaitingKey (x : RegisterName)
  deriving DecidableEq, Repr

structure Cpu where
  registers : Vector UInt8 registerCount := Vector.replicate registerCount 0
  index : UInt16 := 0
  pc : UInt16
  stack : CallStack := {}
  delay : UInt8 := 0
  sound : UInt8 := 0
  mode : Mode := .running
  start : UInt16
  random : RandomSource

namespace Cpu

def powerOn (start : UInt16) (random : RandomSource) : Cpu :=
  { pc := start, start, random }

def reset (c : Cpu) : Cpu :=
  { c with
    registers := Vector.replicate registerCount 0
    index := 0
    pc := c.start
    stack := {}
    delay := 0
    sound := 0
    mode := .running }

def register (c : Cpu) (x : RegisterName) : UInt8 :=
  c.registers[x]

def setRegister (c : Cpu) (x : RegisterName) (value : UInt8) : Cpu :=
  { c with registers := c.registers.set x value }

theorem register_setRegister (c : Cpu) (x y : RegisterName) (value : UInt8) :
    (c.setRegister x value).register y = if x = y then value else c.register y := by
  simp [register, setRegister, Vector.getElem_set, Fin.ext_iff]

def setFlag (c : Cpu) (flag : Bool) : Cpu :=
  c.setRegister 0xF flag.toUInt8

def readRegister (c : Cpu) (x : Nat) : Except Fault UInt8 :=
  if h : x < registerCount then .ok (c.register ⟨x, h⟩) else .error (.noRegister x)

def writeRegister (c : Cpu) (x : Nat) (value : UInt8) : Except Fault Cpu :=
  if h : x < registerCount then .ok (c.setRegister ⟨x, h⟩ value) else .error (.noRegister x)

def isAwaitingKey (c : Cpu) : Bool :=
  c.mode ≠ .running

def tick (c : Cpu) : Cpu :=
  { c with delay := countDown c.delay 1, sound := countDown c.sound 1 }

def press (c : Cpu) (key : Key) : Cpu × List Event :=
  match c.mode with
  | .running => (c, [])
  | .awaitingKey x =>
    ({ c.setRegister x (UInt8.ofNat key.val) with mode := .running }, [.waitResolved key.val x])

end Cpu

end ChipEight
