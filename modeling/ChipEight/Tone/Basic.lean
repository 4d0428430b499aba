import ChipEight.Event

namespace ChipEight

inductive ToneKind where
  | beeper
  | shared
  deriving DecidableEq, Repr

structure Tone where
  kind : ToneKind
  sounding : Bool := false
  deriving DecidableEq, Repr

namespace Tone

def turn (t : Tone) (on : Bool) : Tone :=
  { t with sounding := on }

def turnEvents (t : Tone) (on : Bool) : List Event :=
  if t.kind = .beeper ∧ t.sounding ≠ on then [.beep on] else []

def reset (t : Tone) : Tone :=
  t.turn false

def heard (t : Tone) : Bool :=
  t.sounding

end Tone

end ChipEight
