import ChipEight.Advance
import ChipEight.Instruction.Mnemonic
import ChipEight.Memory
import ChipEight.Screen.Picture
import ChipEight.Text.Chunk

namespace ChipEight

namespace Memory

def dumpWidth : Nat := 16

def dumpGroup : Nat := 4

def dumpCells (bytes : List UInt8) : String :=
  "  ".intercalate ((chunks dumpGroup bytes).map fun group =>
    " ".intercalate (group.map fun byte => lowerHex 2 byte.toNat))

def dumpLine (address : Nat) (bytes : List UInt8) : String :=
  "0x" ++ lowerHex 3 address ++ "\t" ++ dumpCells bytes ++ "\n"

def dumpLines : Nat → List (List UInt8) → List String
  | _, [] => []
  | address, bytes :: rest => dumpLine address bytes :: dumpLines (address + dumpWidth) rest

def dump (m : Memory) (offset : UInt16) (length : Nat) : String :=
  String.join (dumpLines offset.toNat (chunks dumpWidth (m.window offset.toNat length)))

def listingLines (m : Memory) (address : Nat) : Nat → List String
  | 0 => []
  | count + 1 =>
    match m.word address with
    | .ok w =>
      codeLine address w w.mnemonic :: m.listingLines (address + instructionSize.toNat) count
    | .error _ => []

def listing (m : Memory) (offset : UInt16) (count : Nat) : String :=
  String.join ((m.listingLines offset.toNat count).map (· ++ "\n"))

def spriteLine (m : Memory) (offset : UInt16) : Except Fault String :=
  (m.read offset.toNat).map fun byte =>
    shortAddress offset.toNat ++ "\t" ++ upperHex 2 byte.toNat
      ++ "\t[" ++ pixelMarks (Screen.bits byte) ++ "]"

end Memory

end ChipEight
