import ChipEight.Sizes

namespace ChipEight

abbrev Word := UInt16

abbrev RegisterName := Fin registerCount

abbrev Location := Fin 0x1000

namespace Word

def ofBytes (high low : UInt8) : Word :=
  UInt16.ofNat (high.toNat * 0x100 + low.toNat)

def family (w : Word) : Fin 16 :=
  Fin.ofNat 16 (w.toNat / 0x1000)

def x (w : Word) : RegisterName :=
  Fin.ofNat 16 (w.toNat / 0x100)

def y (w : Word) : RegisterName :=
  Fin.ofNat 16 (w.toNat / 0x10)

def n (w : Word) : Fin 16 :=
  Fin.ofNat 16 w.toNat

def nn (w : Word) : UInt8 :=
  UInt8.ofNat w.toNat

def nnn (w : Word) : Location :=
  Fin.ofNat 0x1000 w.toNat

def ofNibbles (a b c d : Fin 16) : Word :=
  UInt16.ofNat (a.val * 0x1000 + b.val * 0x100 + c.val * 0x10 + d.val)

def ofByteField (a b : Fin 16) (byte : UInt8) : Word :=
  UInt16.ofNat (a.val * 0x1000 + b.val * 0x100 + byte.toNat)

def ofLocation (a : Fin 16) (l : Location) : Word :=
  UInt16.ofNat (a.val * 0x1000 + l.val)

end Word

end ChipEight
