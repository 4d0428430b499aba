import ChipEight.Instruction.Basic

namespace ChipEight.Arithmetic

def result (vx vy : UInt8) : Arithmetic → UInt8 × Option Bool
  | assign => (vy, none)
  | or => (vx ||| vy, none)
  | and => (vx &&& vy, none)
  | xor => (vx ^^^ vy, none)
  | add => (vx + vy, some (0xFF < vx.toNat + vy.toNat))
  | subtract => (vx - vy, some (vy < vx))
  | shiftRight => (vx >>> 1, some (vx.toNat.testBit 0))
  | subtractFrom => (vy - vx, some (vx < vy))
  | shiftLeft => (vx <<< 1, some (vx.toNat.testBit 7))

end ChipEight.Arithmetic
