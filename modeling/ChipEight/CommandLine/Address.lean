import ChipEight.Text.NumeralReader

namespace ChipEight.Address

def dropMarker : List Char → List Char
  | '0' :: 'x' :: digits => digits
  | '0' :: 'X' :: digits => digits
  | digits => digits

def parse (text : String) : Except NumeralError UInt16 :=
  (readUnsigned 16 0xFFFF (dropMarker text.toList)).map UInt16.ofNat

end ChipEight.Address
