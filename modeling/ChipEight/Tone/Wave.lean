namespace ChipEight.Wave

def period : Nat := 256

def amplitude : UInt16 := 0x0FFF

def sample (on : Bool) (i : Nat) : UInt16 :=
  if on ∧ i % period < period / 2 then amplitude else 0

def samples (on : Bool) (length : Nat) : List UInt16 :=
  (List.range length).map (sample on)

end ChipEight.Wave
