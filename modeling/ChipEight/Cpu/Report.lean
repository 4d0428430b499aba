import ChipEight.Cpu
import ChipEight.Text.Chunk

namespace ChipEight.Cpu

def cellsPerRow : Nat := 4

def cellRow (cells : List String) : String :=
  "  ".intercalate cells

def registerCell (i : Nat) (value : UInt8) : String :=
  registerText i ++ ": " ++ lowerHex 2 value.toNat ++ " " ++ paddedDecimal 3 value.toNat

def registerRows (c : Cpu) : List String :=
  (chunks cellsPerRow (c.registers.toList.mapIdx registerCell)).map cellRow

def timerText (value : UInt8) : String :=
  lowerHex 3 value.toNat ++ " " ++ decimal value.toNat

def stackRows (c : Cpu) : List String :=
  (chunks cellsPerRow (c.stack.slots.map fun a => lowerHex 4 a.toNat)).map
    fun cells => "\t" ++ cellRow cells

def reportLines (c : Cpu) : List String :=
  ["PC: " ++ lowerHex 4 c.pc.toNat,
    "SP: " ++ lowerHex 4 c.stack.depth,
    "I: " ++ lowerHex 4 c.index.toNat]
    ++ c.registerRows
    ++ ["TIMERS: Dt: " ++ timerText c.delay ++ " St: " ++ timerText c.sound, "Stack:"]
    ++ c.stackRows

def report (c : Cpu) : String :=
  "\n".intercalate c.reportLines

end ChipEight.Cpu
