import ChipEight.Archive.Failure

namespace ChipEight

abbrev Bits := List Bool

abbrev BitReader (α : Type) := StateT Bits (Except ReadFailure) α

namespace Bits

def ofBytes (bytes : List UInt8) : Bits :=
  bytes.flatMap fun byte => (List.range 8).map byte.toNat.testBit

def next : BitReader Bool
  | [] => .error .incompleteDeflate
  | bit :: rest => .ok (bit, rest)

def number : Nat → BitReader Nat
  | 0 => pure 0
  | count + 1 => do
    let bit ← next
    let rest ← number count
    return bit.toNat + 2 * rest

def align : BitReader Unit :=
  modify fun bits => bits.drop (bits.length % 8)

def byte : BitReader UInt8 :=
  return UInt8.ofNat (← number 8)

def corrupt {α : Type} : BitReader α :=
  throw .corruptDeflate

end Bits

end ChipEight
