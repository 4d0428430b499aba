namespace ChipEight

def memorySize : Nat := 0x1000

abbrev registerCount : Nat := 16

instance : @NeZero Nat Zero.ofOfNat0 registerCount :=
  Nat.instNeZeroSucc

def stackSize : Nat := 16

def keyCount : Nat := 16

def instructionSize : UInt16 := 2

def programStart : UInt16 := 0x200

end ChipEight
