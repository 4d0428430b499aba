import ChipEight.Sizes

namespace ChipEight

inductive Advance where
  | next
  | skip
  | jump (target : UInt16)
  deriving DecidableEq, Repr

namespace Advance

def skipIf (condition : Bool) : Advance :=
  if condition then skip else next

def apply (pc : UInt16) : Advance → UInt16
  | next => pc + instructionSize
  | skip => pc + instructionSize + instructionSize
  | jump target => target

end Advance

end ChipEight
