import ChipEight.Fault
import ChipEight.Instruction.Mnemonic
import ChipEight.Keypad

namespace ChipEight

inductive Level where
  | error
  | warn
  | debug
  | trace
  deriving DecidableEq, Repr

def Level.name : Level → String
  | error => "ERROR"
  | warn => "WARN"
  | debug => "DEBUG"
  | trace => "TRACE"

inductive Event where
  | reset
  | loaded (count : Nat) (origin : UInt16)
  | loadingRom (name : String)
  | keyMoved (event : KeyEvent)
  | keyAwaited (x : RegisterName)
  | waitResolved (key : Nat) (x : RegisterName)
  | returning (target : UInt16)
  | executing (pc : UInt16) (word : Word) (instruction : Instruction)
  | undecodable (pc : UInt16) (word : Word)
  | beep (on : Bool)
  | running (pc : UInt16)
  | breakpoint (pc : UInt16)
  | halted (pc : UInt16) (fault : Fault)
  | keyDropped (event : KeyEvent) (fault : Fault)
  deriving DecidableEq, Repr

namespace Event

def level : Event → Level
  | undecodable .. | halted .. => .error
  | keyDropped .. => .warn
  | executing .. | beep _ => .trace
  | _ => .debug

def text : Event → String
  | reset => "reset"
  | loaded count origin =>
    "loaded " ++ decimal count ++ " bytes at " ++ shortAddress origin.toNat
  | loadingRom name => "loading rom '" ++ name ++ "'"
  | keyMoved e =>
    "key " ++ upperHex 1 e.key ++ " " ++ (if e.down then "pressed" else "released")
  | keyAwaited x => "awaiting key press for " ++ registerText x
  | waitResolved key x =>
    "key " ++ upperHex 1 key ++ " resolved the wait on " ++ registerText x
  | returning target => "return to " ++ shortAddress target.toNat
  | executing pc w i => codeLine pc.toNat w i.mnemonic
  | undecodable pc w =>
    "fault at " ++ shortAddress pc.toNat ++ ": " ++ (Fault.undecodable w).message
  | beep on => if on then "beep on" else "beep off"
  | running pc => "run from " ++ shortAddress pc.toNat
  | breakpoint pc => "breakpoint at " ++ shortAddress pc.toNat
  | halted pc fault => "halted at " ++ shortAddress pc.toNat ++ ": " ++ fault.report
  | keyDropped e fault => "dropped key event " ++ e.text ++ ": " ++ fault.report

def line (e : Event) : String :=
  e.level.name ++ " " ++ e.text

end Event

end ChipEight
