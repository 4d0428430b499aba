import ChipEight.Archive.EntryName
import ChipEight.Archive.ExtraField

namespace ChipEight

structure ArchiveEntry where
  name : String
  encrypted : Bool
  aes : Bool
  method : Nat
  checksum : UInt32
  packedSize : Nat
  header : Nat
  deriving DecidableEq, Repr

structure Archive where
  bytes : Array UInt8
  entries : List ArchiveEntry

namespace Archive

def slice (bytes : Array UInt8) (offset count : Nat) : List UInt8 :=
  (bytes.extract offset (offset + count)).toList

def read (bytes : Array UInt8) (offset count : Nat) : Except ArchiveFailure (List UInt8) :=
  if offset + count ≤ bytes.size then .ok (slice bytes offset count)
  else .error (.unreadable .endOfData)

def field (bytes : Array UInt8) (offset count : Nat) : Except ArchiveFailure Nat :=
  (read bytes offset count).map littleEndian

def endSignature : Nat := 0x06054b50

def directorySignature : Nat := 0x02014b50

def entrySignature : Nat := 0x04034b50

def endSize : Nat := 22

def maxComment : Nat := 0xFFFF

def endOffset? (bytes : Array UInt8) : Option Nat :=
  let lowest := bytes.size - (endSize + maxComment)
  (List.range' lowest (bytes.size - endSize + 1 - lowest)).reverse.find? fun offset =>
    littleEndian (slice bytes offset 4) == endSignature

structure DirectoryEnd where
  disk : Nat
  directoryDisk : Nat
  entriesHere : Nat
  entriesInAll : Nat
  size : Nat
  offset : Nat
  deriving DecidableEq, Repr

def readEnd (bytes : Array UInt8) (place : Nat) : Except ArchiveFailure DirectoryEnd := do
  let disk ← field bytes (place + 4) 2
  let directoryDisk ← field bytes (place + 6) 2
  let entriesHere ← field bytes (place + 8) 2
  let entriesInAll ← field bytes (place + 10) 2
  let size ← field bytes (place + 12) 4
  let offset ← field bytes (place + 16) 4
  let comment ← field bytes (place + 20) 2
  let _ ← read bytes (place + endSize) comment
  return { disk, directoryDisk, entriesHere, entriesInAll, size, offset }

def DirectoryEnd.isTooNarrow (e : DirectoryEnd) : Bool :=
  [e.disk, e.directoryDisk, e.entriesHere, e.entriesInAll].any (· == 0xFFFF)
    || [e.size, e.offset].any (· == 0xFFFFFFFF)

def aesMethod : Nat := 99

def encryptedFlag : Nat := 0

def utf8Flag : Nat := 11

def readEntry (bytes : Array UInt8) (shift place : Nat) :
    Except ArchiveFailure (ArchiveEntry × Nat) := do
  if (← field bytes place 4) ≠ directorySignature then throw .badDirectoryHeader
  let flags ← field bytes (place + 8) 2
  let method ← field bytes (place + 10) 2
  let checksum ← field bytes (place + 16) 4
  let packedSize ← field bytes (place + 20) 4
  let nameLength ← field bytes (place + 28) 2
  let extraLength ← field bytes (place + 30) 2
  let commentLength ← field bytes (place + 32) 2
  let header ← field bytes (place + 42) 4
  let name ← read bytes (place + 46) nameLength
  let extra ← read bytes (place + 46 + nameLength) extraLength
  let _ ← read bytes (place + 46 + nameLength + extraLength) commentLength
  let aes ← ExtraField.findAes none extra
  if aes.isNone ∧ method = aesMethod then throw .missingAesField
  let entry :=
    { name := EntryName.decode (flags.testBit utf8Flag) name
      encrypted := flags.testBit encryptedFlag
      aes := aes.isSome
      method := (aes.map (·.method)).getD method
      checksum := UInt32.ofNat checksum
      packedSize
      header := header + shift }
  return (entry, place + 46 + nameLength + extraLength + commentLength)

def readEntries (bytes : Array UInt8) (shift : Nat) :
    Nat → Nat → Except ArchiveFailure (List ArchiveEntry)
  | 0, _ => return []
  | count + 1, place => do
    let (entry, next) ← readEntry bytes shift place
    return entry :: (← readEntries bytes shift count next)

def ofBytes (bytes : Array UInt8) : Except ArchiveFailure Archive := do
  if bytes.size < endSize then throw .tooShort
  let some place := endOffset? bytes | throw .noDirectoryEnd
  let footer ← readEnd bytes place
  if !footer.isTooNarrow && footer.disk != footer.directoryDisk then throw .severalDisks
  if place < footer.size + footer.offset then throw .badDirectoryBounds
  let shift := place - footer.size - footer.offset
  let entries ← readEntries bytes shift footer.entriesHere (footer.offset + shift)
  return { bytes, entries }

end Archive

end ChipEight
