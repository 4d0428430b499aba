import ChipEight.Countdown
import ChipEight.Screen.Grid

namespace ChipEight

structure Screen where
  pixels : Grid Bool
  fade : Grid UInt8
  deriving DecidableEq

namespace Screen

def fullFade : UInt8 := 255

def blank : Screen :=
  ⟨.fill false, .fill 0⟩

def pixel (s : Screen) (x y : Nat) : Bool :=
  s.pixels.get x y

def fadeLevel (s : Screen) (x y : Nat) : UInt8 :=
  s.fade.get x y

def clear (_ : Screen) : Screen :=
  blank

def reset (s : Screen) : Screen :=
  s.clear

def flip (s : Screen) (x y : Nat) (bit : Bool) : Screen × Bool :=
  let off := s.pixel x y && bit
  (⟨s.pixels.set x y (s.pixel x y ^^ bit), if off then s.fade.set x y fullFade else s.fade⟩, off)

theorem pixel_flip (s : Screen) (x y x' y' : Nat) (bit : Bool) :
    (s.flip x y bit).1.pixel x' y' =
      if x % width = x' % width ∧ y % height = y' % height then s.pixel x' y' ^^ bit
      else s.pixel x' y' := by
  simp only [flip, pixel, Grid.get_set]
  split
  · next h => rw [Grid.get_congr s.pixels h.1 h.2]
  · rfl

theorem fadeLevel_flip (s : Screen) (x y x' y' : Nat) (bit : Bool) :
    (s.flip x y bit).1.fadeLevel x' y' =
      if (s.flip x y bit).2 ∧ x % width = x' % width ∧ y % height = y' % height then fullFade
      else s.fadeLevel x' y' := by
  simp only [flip, fadeLevel]
  split
  · next off => simp [off, Grid.get_set]
  · next off => simp [off]

def flipRow (s : Screen) (x y : Nat) : List Bool → Screen × Bool
  | [] => (s, false)
  | bit :: bits =>
    let (flipped, off) := s.flip x y bit
    let (drawn, others) := flipRow flipped (x + 1) y bits
    (drawn, off || others)

def bits (byte : UInt8) : List Bool :=
  (List.range 8).map fun column => byte.toNat.testBit (7 - column)

def flipByte (s : Screen) (x y : Nat) (byte : UInt8) : Screen × Bool :=
  s.flipRow x y (bits byte)

def flipSprite (s : Screen) (x y : Nat) : List UInt8 → Screen × Bool
  | [] => (s, false)
  | row :: rows =>
    let (flipped, off) := s.flipByte x y row
    let (drawn, others) := flipSprite flipped x (y + 1) rows
    (drawn, off || others)

def decay (s : Screen) (amount : UInt8) : Screen :=
  { s with fade := s.fade.map (countDown · amount) }

end Screen

end ChipEight
