import ChipEight.Fault

namespace ChipEight

structure Rom where
  name : String
  data : List UInt8
  deriving DecidableEq, Repr

namespace Rom

def capacityAt (origin : UInt16) : Nat :=
  memorySize - origin.toNat

end Rom

end ChipEight
