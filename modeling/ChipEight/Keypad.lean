import ChipEight.Fault

namespace ChipEight

abbrev Key := Fin keyCount

def Key.ofNat? (n : Nat) : Except Fault Key :=
  if h : n < keyCount then .ok ⟨n, h⟩ else .error (.noKey n)

structure KeyEvent where
  key : Nat
  down : Bool
  deriving DecidableEq, Repr

def KeyEvent.text (e : KeyEvent) : String :=
  "KeyEvent \x7b key: " ++ decimal e.key ++ ", down: " ++ (if e.down then "true" else "false")
    ++ " \x7d"

structure Keypad where
  keys : Vector Bool keyCount
  deriving DecidableEq

namespace Keypad

def released : Keypad :=
  ⟨Vector.replicate keyCount false⟩

def reset (_ : Keypad) : Keypad :=
  released

def get (k : Keypad) (key : Key) : Bool :=
  k.keys[key]

def put (k : Keypad) (key : Key) (down : Bool) : Keypad :=
  ⟨k.keys.set key down⟩

theorem get_put (k : Keypad) (key other : Key) (down : Bool) :
    (k.put key down).get other = if key = other then down else k.get other := by
  simp [get, put, Vector.getElem_set, Fin.ext_iff]

def isDown (k : Keypad) (key : Nat) : Except Fault Bool :=
  (Key.ofNat? key).map k.get

def set (k : Keypad) (key : Nat) (down : Bool) : Except Fault Keypad :=
  (Key.ofNat? key).map fun key => k.put key down

end Keypad

end ChipEight
