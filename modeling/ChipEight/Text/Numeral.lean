namespace ChipEight

def lowerDigits (width n : Nat) : List Char :=
  (Nat.toDigits 16 n).leftpad width '0'

def upperDigits (width n : Nat) : List Char :=
  ((Nat.toDigits 16 n).map Char.toUpper).leftpad width '0'

def lowerHex (width n : Nat) : String :=
  String.ofList (lowerDigits width n)

def upperHex (width n : Nat) : String :=
  String.ofList (upperDigits width n)

def prefixedHex (width n : Nat) : String :=
  "0x" ++ upperHex width n

def shortAddress (n : Nat) : String :=
  prefixedHex 3 n

def paddedWord (n : Nat) : String :=
  prefixedHex 4 n

def decimal (n : Nat) : String :=
  Nat.repr n

def paddedDecimal (width n : Nat) : String :=
  String.ofList ((Nat.toDigits 10 n).leftpad width ' ')

def blanks (n : Nat) : String :=
  String.ofList (List.replicate n ' ')

@[simp]
theorem toList_lowerHex (width n : Nat) : (lowerHex width n).toList = lowerDigits width n := by
  simp [lowerHex]

@[simp]
theorem toList_upperHex (width n : Nat) : (upperHex width n).toList = upperDigits width n := by
  simp [upperHex]

@[simp]
theorem toList_decimal (n : Nat) : (decimal n).toList = Nat.toDigits 10 n :=
  Nat.toList_repr

end ChipEight
