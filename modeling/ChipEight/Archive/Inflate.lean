import ChipEight.Archive.PrefixCode

namespace ChipEight.Inflate

structure Span where
  base : Nat
  extra : Nat

def spanList (first : Nat) (extras : List Nat) : List Span :=
  match extras with
  | [] => []
  | extra :: rest => ⟨first, extra⟩ :: spanList (first + 1 <<< extra) rest

def lengthSpans : List Span :=
  spanList 3 [0, 0, 0, 0, 0, 0, 0, 0, 1, 1, 1, 1, 2, 2, 2, 2, 3, 3, 3, 3, 4, 4, 4, 4, 5, 5, 5, 5]
    ++ [⟨258, 0⟩]

def distanceSpans : List Span :=
  spanList 1 [0, 0, 0, 0, 1, 1, 2, 2, 3, 3, 4, 4, 5, 5, 6, 6, 7, 7, 8, 8, 9, 9, 10, 10, 11, 11, 12,
    12, 13, 13]

def readSpan (spans : List Span) (i : Nat) : BitReader Nat :=
  match spans[i]? with
  | some span => return span.base + (← Bits.number span.extra)
  | none => Bits.corrupt

def copy (distance : Nat) : Nat → Array UInt8 → Array UInt8
  | 0, out => out
  | count + 1, out =>
    let byte := if distance ≤ out.size then out.getD (out.size - distance) 0 else 0
    copy distance count (out.push byte)

structure Codes where
  literal : PrefixCode
  distance : PrefixCode

def codesOfLengths (literal distance : List Nat) : BitReader Codes :=
  match PrefixCode.ofLengths? literal, PrefixCode.ofLengths? distance with
  | some literal, some distance => pure ⟨literal, distance⟩
  | _, _ => Bits.corrupt

def fixedCodes : BitReader Codes :=
  codesOfLengths
    (List.replicate 144 8 ++ List.replicate 112 9 ++ List.replicate 24 7 ++ List.replicate 8 8)
    (List.replicate 32 5)

def endOfBlock : Nat := 256

-- Each symbol takes at least one bit, so that the amount of bits bounds their number.
def compressed (codes : Codes) : Nat → Array UInt8 → BitReader (Array UInt8)
  | 0, _ => throw .incompleteDeflate
  | fuel + 1, out => do
    let symbol ← codes.literal.read
    if symbol < endOfBlock then compressed codes fuel (out.push (UInt8.ofNat symbol))
    else if symbol = endOfBlock then return out
    else
      let length ← readSpan lengthSpans (symbol - endOfBlock - 1)
      let distance ← readSpan distanceSpans (← codes.distance.read)
      compressed codes fuel (copy distance length out)

def storedBytes : Nat → Array UInt8 → BitReader (Array UInt8)
  | 0, out => return out
  | count + 1, out => do storedBytes count (out.push (← Bits.byte))

def stored (out : Array UInt8) : BitReader (Array UInt8) := do
  Bits.align
  let length ← Bits.number 16
  let complement ← Bits.number 16
  if length + complement = 0xFFFF then storedBytes length out else Bits.corrupt

def lengthOrder : List Nat :=
  [16, 17, 18, 0, 8, 7, 9, 6, 10, 5, 11, 4, 12, 3, 13, 2, 14, 1, 15]

def readMany (width : Nat) : Nat → BitReader (List Nat)
  | 0 => return []
  | count + 1 => do
    let value ← Bits.number width
    return value :: (← readMany width count)

def arrange (given : List Nat) : List Nat :=
  (List.range lengthOrder.length).map fun symbol => given.getD (lengthOrder.idxOf symbol) 0

def readRepeat (previous : Option Nat) (symbol : Nat) : BitReader (Nat × Nat) :=
  match symbol, previous with
  | 16, some length => return (length, 3 + (← Bits.number 2))
  | 16, none => Bits.corrupt
  | 17, _ => return (0, 3 + (← Bits.number 3))
  | 18, _ => return (0, 11 + (← Bits.number 7))
  | length, _ => return (length, 1)

-- Every round adds at least one length, so that the amount missing bounds their number.
def readLengths (code : PrefixCode) : Nat → Nat → List Nat → BitReader (List Nat)
  | _, 0, known => return known
  | 0, _ + 1, _ => Bits.corrupt
  | fuel + 1, missing + 1, known => do
    let (length, count) ← readRepeat known.getLast? (← code.read)
    if count ≤ missing + 1 then
      readLengths code fuel (missing + 1 - count) (known ++ List.replicate count length)
    else Bits.corrupt

def describedCodes : BitReader Codes := do
  let literals := 257 + (← Bits.number 5)
  let distances := 1 + (← Bits.number 5)
  let count := 4 + (← Bits.number 4)
  if 286 < literals ∨ 30 < distances then Bits.corrupt
  else match PrefixCode.full? (arrange (← readMany 3 count)) with
    | none => Bits.corrupt
    | some code =>
      let lengths ← readLengths code (literals + distances) (literals + distances) []
      codesOfLengths (lengths.take literals) (lengths.drop literals)

def block (fuel : Nat) (kind : Nat) (out : Array UInt8) : BitReader (Array UInt8) :=
  match kind with
  | 0 => stored out
  | 1 => do compressed (← fixedCodes) fuel out
  | 2 => do compressed (← describedCodes) fuel out
  | _ => Bits.corrupt

def blocks : Nat → Array UInt8 → BitReader (Array UInt8)
  | 0, _ => throw .incompleteDeflate
  | fuel + 1, out => do
    let last ← Bits.next
    let out ← block fuel (← Bits.number 2) out
    if last then return out else blocks fuel out

def inflate (data : List UInt8) : Except ReadFailure (List UInt8) :=
  let bits := Bits.ofBytes data
  (blocks (bits.length + 1) #[] bits).map fun (out, _) => out.toList

end ChipEight.Inflate
