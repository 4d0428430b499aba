import ChipEight.Instruction.Word

namespace ChipEight

inductive Arithmetic where
  | assign
  | or
  | and
  | xor
  | add
  | subtract
  | shiftRight
  | subtractFrom
  | shiftLeft
  deriving DecidableEq, Repr

inductive Condition where
  | equals (x : RegisterName) (nn : UInt8)
  | differs (x : RegisterName) (nn : UInt8)
  | same (x y : RegisterName)
  | distinct (x y : RegisterName)
  | keyDown (x : RegisterName)
  | keyUp (x : RegisterName)
  deriving DecidableEq, Repr

inductive Transfer where
  | readDelay
  | awaitKey
  | setDelay
  | setSound
  | addToIndex
  | pointToGlyph
  | storeDigits
  | storeRegisters
  | loadRegisters
  deriving DecidableEq, Repr

inductive Instruction where
  | clear
  | ret
  | jump (nnn : Location)
  | call (nnn : Location)
  | skip (condition : Condition)
  | load (x : RegisterName) (nn : UInt8)
  | add (x : RegisterName) (nn : UInt8)
  | arithmetic (op : Arithmetic) (x y : RegisterName)
  | loadIndex (nnn : Location)
  | jumpOffset (nnn : Location)
  | random (x : RegisterName) (nn : UInt8)
  | draw (x y : RegisterName) (n : Fin 16)
  | transfer (op : Transfer) (x : RegisterName)
  deriving DecidableEq, Repr

namespace Arithmetic

def ofCode : Fin 16 → Option Arithmetic
  | 0x0 => some assign
  | 0x1 => some or
  | 0x2 => some and
  | 0x3 => some xor
  | 0x4 => some add
  | 0x5 => some subtract
  | 0x6 => some shiftRight
  | 0x7 => some subtractFrom
  | 0xE => some shiftLeft
  | _ => none

def code : Arithmetic → Fin 16
  | assign => 0x0
  | or => 0x1
  | and => 0x2
  | xor => 0x3
  | add => 0x4
  | subtract => 0x5
  | shiftRight => 0x6
  | subtractFrom => 0x7
  | shiftLeft => 0xE

@[simp]
theorem ofCode_code (op : Arithmetic) : ofCode op.code = some op := by
  cases op <;> rfl

end Arithmetic

namespace Transfer

def ofCode (code : UInt8) : Option Transfer :=
  if code = 0x07 then some readDelay
  else if code = 0x0A then some awaitKey
  else if code = 0x15 then some setDelay
  else if code = 0x18 then some setSound
  else if code = 0x1E then some addToIndex
  else if code = 0x29 then some pointToGlyph
  else if code = 0x33 then some storeDigits
  else if code = 0x55 then some storeRegisters
  else if code = 0x65 then some loadRegisters
  else none

def code : Transfer → UInt8
  | readDelay => 0x07
  | awaitKey => 0x0A
  | setDelay => 0x15
  | setSound => 0x18
  | addToIndex => 0x1E
  | pointToGlyph => 0x29
  | storeDigits => 0x33
  | storeRegisters => 0x55
  | loadRegisters => 0x65

@[simp]
theorem ofCode_code (op : Transfer) : ofCode op.code = some op := by
  cases op <;> rfl

end Transfer

namespace Instruction

def decode (w : Word) : Option Instruction :=
  match w.family with
  | 0x0 => if w = 0x00E0 then some clear else if w = 0x00EE then some ret else none
  | 0x1 => some (jump w.nnn)
  | 0x2 => some (call w.nnn)
  | 0x3 => some (skip (.equals w.x w.nn))
  | 0x4 => some (skip (.differs w.x w.nn))
  | 0x5 => if w.n = 0 then some (skip (.same w.x w.y)) else none
  | 0x6 => some (load w.x w.nn)
  | 0x7 => some (add w.x w.nn)
  | 0x8 => (Arithmetic.ofCode w.n).map fun op => arithmetic op w.x w.y
  | 0x9 => if w.n = 0 then some (skip (.distinct w.x w.y)) else none
  | 0xA => some (loadIndex w.nnn)
  | 0xB => some (jumpOffset w.nnn)
  | 0xC => some (random w.x w.nn)
  | 0xD => some (draw w.x w.y w.n)
  | 0xE =>
    if w.nn = 0x9E then some (skip (.keyDown w.x))
    else if w.nn = 0xA1 then some (skip (.keyUp w.x))
    else none
  -- family `F`, the only one left
  | _ => (Transfer.ofCode w.nn).map fun op => transfer op w.x

def word : Instruction → Word
  | clear => 0x00E0
  | ret => 0x00EE
  | jump nnn => .ofLocation 0x1 nnn
  | call nnn => .ofLocation 0x2 nnn
  | skip (.equals x nn) => .ofByteField 0x3 x nn
  | skip (.differs x nn) => .ofByteField 0x4 x nn
  | skip (.same x y) => .ofNibbles 0x5 x y 0x0
  | load x nn => .ofByteField 0x6 x nn
  | add x nn => .ofByteField 0x7 x nn
  | arithmetic op x y => .ofNibbles 0x8 x y op.code
  | skip (.distinct x y) => .ofNibbles 0x9 x y 0x0
  | loadIndex nnn => .ofLocation 0xA nnn
  | jumpOffset nnn => .ofLocation 0xB nnn
  | random x nn => .ofByteField 0xC x nn
  | draw x y n => .ofNibbles 0xD x y n
  | skip (.keyDown x) => .ofByteField 0xE x 0x9E
  | skip (.keyUp x) => .ofByteField 0xE x 0xA1
  | transfer op x => .ofByteField 0xF x op.code

end Instruction

end ChipEight
