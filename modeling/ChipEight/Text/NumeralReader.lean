namespace ChipEight

inductive NumeralError where
  | empty
  | invalidDigit
  | tooLarge
  | tooSmall
  deriving DecidableEq, Repr

def NumeralError.message : NumeralError → String
  | empty => "cannot parse integer from empty string"
  | invalidDigit => "invalid digit found in string"
  | tooLarge => "number too large to fit in target type"
  | tooSmall => "number too small to fit in target type"

def digitValue (c : Char) : Option Nat :=
  if '0' ≤ c ∧ c ≤ '9' then some (c.toNat - '0'.toNat)
  else if 'a' ≤ c ∧ c ≤ 'z' then some (c.toNat - 'a'.toNat + 10)
  else if 'A' ≤ c ∧ c ≤ 'Z' then some (c.toNat - 'A'.toNat + 10)
  else none

def digit? (base : Nat) (c : Char) : Option Nat :=
  (digitValue c).filter (· < base)

def readDigits (base bound : Nat) (excess : NumeralError) :
    Nat → List Char → Except NumeralError Nat
  | value, [] => .ok value
  | value, c :: rest =>
    match digit? base c with
    | none => .error .invalidDigit
    | some d =>
      if bound < value * base + d then .error excess
      else readDigits base bound excess (value * base + d) rest

def readMagnitude (base bound : Nat) (excess : NumeralError) :
    List Char → Except NumeralError Nat
  | [] => .error .invalidDigit
  | digits => readDigits base bound excess 0 digits

def readUnsigned (base bound : Nat) : List Char → Except NumeralError Nat
  | [] => .error .empty
  | '+' :: digits => readMagnitude base bound .tooLarge digits
  | digits => readMagnitude base bound .tooLarge digits

def readSigned : List Char → Except NumeralError Int
  | '-' :: digits => (readMagnitude 10 (Int64.size / 2) .tooSmall digits).map fun n => -Int.ofNat n
  | digits => (readUnsigned 10 (Int64.size / 2 - 1) digits).map Int.ofNat

end ChipEight
