import ChipEight.Instruction.Word
import ChipEight.Sizes
import ChipEight.Text.Numeral

namespace ChipEight

inductive Fault where
  | undecodable (word : Word)
  | outOfRange (address size : Nat)
  | partialWrite (address written : Nat)
  | noGlyph (digit : Nat)
  | stackFull
  | stackEmpty
  | noSlot (slot : Nat)
  | noRegister (register : Nat)
  | noKey (key : Nat)
  deriving DecidableEq, Repr

inductive FaultArea where
  | opcode
  | memory
  | stack
  | register
  | key
  deriving DecidableEq, Repr

inductive FaultKind where
  | outOfRange
  | invalidOpcode
  deriving DecidableEq, Repr

namespace Fault

def area : Fault → FaultArea
  | undecodable _ => .opcode
  | outOfRange .. | partialWrite .. | noGlyph _ => .memory
  | stackFull | stackEmpty | noSlot _ => .stack
  | noRegister _ => .register
  | noKey _ => .key

def kind (f : Fault) : FaultKind :=
  match f.area with
  | .opcode => .invalidOpcode
  | _ => .outOfRange

def isOutOfRange (f : Fault) : Bool :=
  f.kind = .outOfRange

def message : Fault → String
  | undecodable w => "An unsupported opcode was used " ++ paddedWord w.toNat ++ "."
  | outOfRange a size =>
    "Address " ++ paddedWord a ++ " is out of range, the memory size is "
      ++ paddedWord size ++ "."
  | partialWrite a n =>
    "Bulk write stopped at " ++ paddedWord a ++ " after " ++ decimal n ++ " bytes."
  | noGlyph d => "There is no font glyph for the digit " ++ prefixedHex 2 d ++ "."
  | stackFull => "Stack is full!"
  | stackEmpty => "Stack is empty!"
  | noSlot n => "There is no stack slot " ++ decimal n ++ "."
  | noRegister x => "There is no register V" ++ upperHex 1 x ++ "."
  | noKey k => "There is no key " ++ prefixedHex 2 k ++ " on the keypad."

end Fault

def FaultArea.complaint : FaultArea → String
  | opcode => "Invalid opcode state"
  | memory => "Invalid memory access"
  | stack => "Invalid stack state"
  | register => "Invalid register access"
  | key => "Invalid key"

def Fault.report (f : Fault) : String :=
  f.area.complaint ++ " '" ++ f.message ++ "'."

end ChipEight
