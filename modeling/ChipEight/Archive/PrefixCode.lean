import ChipEight.Archive.Bits

namespace ChipEight

inductive PrefixCode where
  | empty
  | leaf (symbol : Nat)
  | node (zero one : PrefixCode)
  deriving Repr

structure CodeLength where
  length : Nat
  symbol : Nat
  deriving Repr

namespace PrefixCode

def maxLength : Nat := 15

def sortedLengths (lengths : List Nat) : List CodeLength :=
  let used :=
    (lengths.mapIdx fun symbol length => CodeLength.mk length symbol).filter (0 < ·.length)
  (List.range (maxLength + 1)).flatMap fun length => used.filter (·.length == length)

def grow (depth : Nat) : Nat → List CodeLength → PrefixCode × List CodeLength
  | _, [] => (empty, [])
  | levels, c :: rest =>
    if c.length ≤ depth then (leaf c.symbol, rest)
    else match levels with
      | 0 => (empty, c :: rest)
      | levels + 1 =>
        let (zero, rest) := grow (depth + 1) levels (c :: rest)
        let (one, rest) := grow (depth + 1) levels rest
        (node zero one, rest)
  termination_by levels => levels

def isFull : PrefixCode → Bool
  | empty => false
  | leaf _ => true
  | node zero one => zero.isFull && one.isFull

def full? (lengths : List Nat) : Option PrefixCode :=
  let (code, left) := grow 0 maxLength (sortedLengths lengths)
  if left.isEmpty ∧ code.isFull then some code else none

def ofLengths? (lengths : List Nat) : Option PrefixCode :=
  match sortedLengths lengths with
  | [] => some (node empty empty)
  | [c] => if c.length = 1 then some (node (leaf c.symbol) empty) else none
  | _ => full? lengths

def read : PrefixCode → BitReader Nat
  | empty => Bits.corrupt
  | leaf symbol => pure symbol
  | node zero one => do
    if ← Bits.next then one.read else zero.read

end PrefixCode

end ChipEight
