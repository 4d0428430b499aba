import ChipEight.Tone.Basic

namespace ChipEight

structure ToneBank where
  kind : ToneKind
  sounding : List Bool := [false]
  deriving DecidableEq, Repr

namespace ToneBank

def tone (b : ToneBank) (handle : Nat) : Tone :=
  ⟨b.kind, b.sounding.getD handle false⟩

def put (b : ToneBank) (handle : Nat) (t : Tone) : ToneBank :=
  match b.kind with
  | .beeper => { b with sounding := b.sounding.set handle t.sounding }
  | .shared => { b with sounding := b.sounding.map fun _ => t.sounding }

def copy (b : ToneBank) (handle : Nat) : ToneBank × Nat :=
  ({ b with sounding := b.sounding ++ [(b.tone handle).sounding] }, b.sounding.length)

end ToneBank

end ChipEight
