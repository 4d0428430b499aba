import ChipEight.Proofs.Board.History
import ChipEight.Proofs.Screen.Parity

namespace ChipEight

inductive Operation where
  | board (c : Command)
  | screen (c : Screen.Command)
  | setPc (pc : UInt16)

inductive Answer where
  | done
  | notice (n : Notice)
  | count (n : Nat)
  | switchedOff (off : Bool)
  deriving DecidableEq, Repr

namespace Screen

def answer (s : Screen) : Command → Option Answer
  | .flip x y bit => some (.switchedOff (s.flip x y bit).2)
  | .flipByte x y byte => some (.switchedOff (s.flipByte x y byte).2)
  | .clear | .reset | .decay _ => none

end Screen

namespace Board

def answerTo (b : Board) : Command → Option (Except Fault Answer)
  | .step => some (b.step.outcome.map .notice)
  | .key e => some ((b.handleKey e).outcome.map fun _ => .done)
  | .keyOnCpu key => some ((b.pressOnCpu key).outcome.map fun _ => .done)
  | .load data origin => some ((b.load data origin).outcome.map .count)
  | .loadProgram data => some ((b.loadProgram data).outcome.map .count)
  | .loadRom rom => some ((b.loadRom rom).outcome.map .count)
  | .setRegister x value => some ((b.cpu.writeRegister x value).map fun _ => .done)
  | .tick | .setIndex _ | .setBroken _ | .setShutdown _ | .setScreen _ | .reset | .resetCpu => none

def setPc (b : Board) (pc : UInt16) : Board :=
  { b with cpu := { b.cpu with pc } }

def operate (b : Board) : Operation → Board
  | .board c => b.apply c
  | .screen c => { b with screen := b.screen.apply c }
  | .setPc pc => b.setPc pc

def answer (b : Board) : Operation → Option (Except Fault Answer)
  | .board c => b.answerTo c
  | .screen c => (b.screen.answer c).map .ok
  | .setPc _ => none

def afterAll (b : Board) (ops : List Operation) : Board :=
  ops.foldl operate b

def answers (b : Board) : List Operation → List (Except Fault Answer)
  | [] => []
  | op :: later => (b.answer op).toList ++ (b.operate op).answers later

end Board

end ChipEight
