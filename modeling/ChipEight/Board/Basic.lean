import ChipEight.Cpu
import ChipEight.Memory
import ChipEight.Rom.Basic
import ChipEight.Screen.Basic
import ChipEight.Tone.Basic

namespace ChipEight

structure Board where
  cpu : Cpu
  memory : Memory
  screen : Screen
  tone : Tone
  keypad : Keypad
  broken : Bool := false
  shutdown : Bool := false

structure Reply (α : Type) where
  board : Board
  outcome : Except Fault α
  log : List Event := []

namespace Board

def powerOn (kind : ToneKind) (start : UInt16) (random : RandomSource) : Board where
  cpu := .powerOn start random
  memory := .initial
  screen := .blank
  tone := { kind }
  keypad := .released

def reset (b : Board) : Board where
  cpu := b.cpu.reset
  memory := .initial
  screen := b.screen.reset
  tone := b.tone.reset
  keypad := b.keypad.reset

def load (b : Board) (data : List UInt8) (origin : UInt16) : Reply Nat :=
  let (memory, outcome) := b.memory.writeAll origin.toNat data
  { board := { b with memory }
    outcome
    log := match outcome with
      | .ok count => [.loaded count origin]
      | .error _ => [] }

def loadProgram (b : Board) (data : List UInt8) : Reply Nat :=
  b.load data programStart

def loadRom (b : Board) (rom : Rom) : Reply Nat :=
  let reply := b.load rom.data b.cpu.start
  { reply with log := .loadingRom rom.name :: reply.log }

def tick (b : Board) : Board × List Event :=
  let cpu := b.cpu.tick
  let on := decide (0 < cpu.sound)
  ({ b with cpu, tone := b.tone.turn on }, b.tone.turnEvents on)

def handleKey (b : Board) (e : KeyEvent) : Reply Unit :=
  match Key.ofNat? e.key with
  | .error f => { board := b, outcome := .error f }
  | .ok key =>
    let b := { b with keypad := b.keypad.put key e.down }
    if e.down then
      let (cpu, events) := b.cpu.press key
      { board := { b with cpu }, outcome := .ok (), log := .keyMoved e :: events }
    else { board := b, outcome := .ok (), log := [.keyMoved e] }

def pressOnCpu (b : Board) (key : Nat) : Reply Unit :=
  match Key.ofNat? key with
  | .error f => { board := b, outcome := .error f }
  | .ok key =>
    let (cpu, events) := b.cpu.press key
    { board := { b with cpu }, outcome := .ok (), log := events }

def setBroken (b : Board) (value : Bool) : Board :=
  { b with broken := value }

def setShutdown (b : Board) (value : Bool) : Board :=
  { b with shutdown := value }

end Board

end ChipEight
