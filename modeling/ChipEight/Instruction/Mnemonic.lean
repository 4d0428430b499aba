import ChipEight.Instruction.Basic
import ChipEight.Text.Numeral

namespace ChipEight

inductive Operand where
  | register (x : RegisterName)
  | immediate (value : Nat)
  | index
  | indirect
  | delayTimer
  | soundTimer
  | key
  | glyph
  | digits
  | shifted (x : RegisterName)
  | unused (y : RegisterName)
  deriving DecidableEq, Repr

def registerText (x : Nat) : String :=
  "V" ++ upperHex 1 x

namespace Operand

/-- A shift shows its second register in braces, since only the first one is shifted. -/
def text : Operand → String
  | register x => registerText x
  | immediate value => prefixedHex 1 value
  | index => "I"
  | indirect => "[I]"
  | delayTimer => "DT"
  | soundTimer => "ST"
  | key => "K"
  | glyph => "F"
  | digits => "B"
  | shifted x => registerText x ++ " \x7b"
  | unused y => registerText y ++ "\x7d"

end Operand

namespace Arithmetic

def name : Arithmetic → String
  | assign => "LD"
  | or => "OR"
  | and => "AND"
  | xor => "XOR"
  | add => "ADD"
  | subtract => "SUB"
  | shiftRight => "SHR"
  | subtractFrom => "SUBN"
  | shiftLeft => "SHL"

def operands (x y : RegisterName) : Arithmetic → List Operand
  | shiftRight | shiftLeft => [.shifted x, .unused y]
  | _ => [.register x, .register y]

end Arithmetic

namespace Condition

def name : Condition → String
  | equals .. | same .. => "SE"
  | differs .. | distinct .. => "SNE"
  | keyDown .. => "SKP"
  | keyUp .. => "SKNP"

def operands : Condition → List Operand
  | equals x nn | differs x nn => [.register x, .immediate nn.toNat]
  | same x y | distinct x y => [.register x, .register y]
  | keyDown x | keyUp x => [.register x]

end Condition

namespace Transfer

def name : Transfer → String
  | addToIndex => "ADD"
  | _ => "LD"

def operands (x : RegisterName) : Transfer → List Operand
  | readDelay => [.register x, .delayTimer]
  | awaitKey => [.register x, .key]
  | setDelay => [.delayTimer, .register x]
  | setSound => [.soundTimer, .register x]
  | addToIndex => [.index, .register x]
  | pointToGlyph => [.glyph, .register x]
  | storeDigits => [.digits, .register x]
  | storeRegisters => [.indirect, .register x]
  | loadRegisters => [.register x, .indirect]

end Transfer

namespace Instruction

def name : Instruction → String
  | clear => "CLS"
  | ret => "RET"
  | jump .. | jumpOffset .. => "JP"
  | call .. => "CALL"
  | skip condition => condition.name
  | load .. | loadIndex .. => "LD"
  | add .. => "ADD"
  | arithmetic op _ _ => op.name
  | random .. => "RND"
  | draw .. => "DRW"
  | transfer op _ => op.name

def operands : Instruction → List Operand
  | clear | ret => []
  | jump nnn | call nnn => [.immediate nnn.val]
  | skip condition => condition.operands
  | load x nn | add x nn | random x nn => [.register x, .immediate nn.toNat]
  | arithmetic op x y => op.operands x y
  | loadIndex nnn => [.index, .immediate nnn.val]
  | jumpOffset nnn => [.register 0, .immediate nnn.val]
  | draw x y n => [.register x, .register y, .immediate n.val]
  | transfer op x => op.operands x

def mnemonic (i : Instruction) : String :=
  match i.operands with
  | [] => i.name
  | operands => i.name ++ " " ++ ", ".intercalate (operands.map Operand.text)

end Instruction

def unknownMnemonic : String :=
  "[UNKNOWN]"

def Word.mnemonic (w : Word) : String :=
  match Instruction.decode w with
  | some i => i.mnemonic
  | none => unknownMnemonic

def codeLine (address : Nat) (w : Word) (mnemonic : String) : String :=
  shortAddress address ++ "\t" ++ upperHex 4 w.toNat ++ "\t" ++ mnemonic

end ChipEight
