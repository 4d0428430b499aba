namespace ChipEight

structure RandomSource where
  word : Nat → UInt32
  taken : Nat := 0

namespace RandomSource

def cycle (words : List UInt32) : RandomSource :=
  { word := fun i => words.getD (i % words.length) 0 }

def next (r : RandomSource) : UInt8 × RandomSource :=
  ((r.word r.taken).toUInt8, { r with taken := r.taken + 1 })

end RandomSource

end ChipEight
