namespace ChipEight.EntryName

def replacement : Char := Char.ofNat 0xFFFD

def followers (lead : UInt8) : Option (Nat × UInt8 × UInt8) :=
  if lead < 0x80 then some (0, 0x80, 0xBF)
  else if lead < 0xC2 then none
  else if lead < 0xE0 then some (1, 0x80, 0xBF)
  else if lead = 0xE0 then some (2, 0xA0, 0xBF)
  else if lead = 0xED then some (2, 0x80, 0x9F)
  else if lead < 0xF0 then some (2, 0x80, 0xBF)
  else if lead = 0xF0 then some (3, 0x90, 0xBF)
  else if lead < 0xF4 then some (3, 0x80, 0xBF)
  else if lead = 0xF4 then some (3, 0x80, 0x8F)
  else none

def following (low high : UInt8) : Nat → List UInt8 → List UInt8
  | count + 1, byte :: rest =>
    if low ≤ byte ∧ byte ≤ high then byte :: following 0x80 0xBF count rest else []
  | _, _ => []

def leadBits (lead : UInt8) (count : Nat) : Nat :=
  if count = 0 then lead.toNat else lead.toNat % (1 <<< (6 - count))

def assemble (lead : UInt8) (rest : List UInt8) : Char :=
  Char.ofNat (rest.foldl (fun acc byte => acc * 64 + byte.toNat % 64) (leadBits lead rest.length))

def decodeUtf8 : List UInt8 → List Char
  | [] => []
  | lead :: rest =>
    match followers lead with
    | none => replacement :: decodeUtf8 rest
    | some (count, low, high) =>
      let taken := following low high count rest
      (if taken.length = count then assemble lead taken else replacement)
        :: decodeUtf8 (rest.drop taken.length)
  termination_by bytes => bytes.length
  decreasing_by all_goals simp only [List.length_drop, List.length_cons]; omega

def upperHalf : List Char :=
  ("ÇüéâäàåçêëèïîìÄÅÉæÆôöòûùÿÖÜ¢£¥₧ƒáíóúñÑªº¿⌐¬½¼¡«»░▒▓│┤╡╢╖╕╣║╗╝╜╛┐" ++
    "└┴┬├─┼╞╟╚╔╩╦╠═╬╧╨╤╥╙╘╒╓╫╪┘┌█▄▌▐▀αßΓπΣσµτΦΘΩδ∞φε∩≡±≥≤⌠⌡÷≈°∙·√ⁿ²■\u00a0").toList

def decodeCodePage (bytes : List UInt8) : List Char :=
  bytes.map fun byte =>
    if byte < 0x80 then Char.ofNat byte.toNat else upperHalf.getD (byte.toNat - 0x80) replacement

def decode (utf8 : Bool) (bytes : List UInt8) : String :=
  String.ofList (if utf8 then decodeUtf8 bytes else decodeCodePage bytes)

end ChipEight.EntryName
