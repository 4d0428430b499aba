namespace ChipEight

structure Cadence where
  interval : Option Nat
  next : Nat := 0
  deriving DecidableEq, Repr

namespace Cadence

def nanosecondsPerSecond : Nat := 1_000_000_000

def intervalOf (hertz : UInt32) : Option Nat :=
  if hertz = 0 then none else some (nanosecondsPerSecond / hertz.toNat)

def ofRate (hertz : UInt32) : Cadence :=
  { interval := intervalOf hertz }

def due (c : Cadence) (now : Nat) : Bool :=
  c.interval.isNone || c.next ≤ now

def advance (c : Cadence) (now : Nat) : Cadence :=
  match c.interval with
  | none => c
  | some interval =>
    -- Ticks that were missed are not made up for.
    { c with next := if c.next + interval < now then now + interval else c.next + interval }

end Cadence

end ChipEight
