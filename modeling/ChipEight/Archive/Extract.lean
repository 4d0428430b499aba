import ChipEight.Archive.Checksum
import ChipEight.Archive.Directory
import ChipEight.Archive.Inflate
import ChipEight.Rom.Error

namespace ChipEight.Archive

def insertName (name : String) : List String → List String
  | [] => [name]
  | other :: rest =>
    if name = other then other :: rest
    else if name < other then name :: other :: rest
    else other :: insertName name rest

def names (a : Archive) : List String :=
  (a.entries.map (·.name)).foldr insertName []

def find? (a : Archive) (name : String) : Option ArchiveEntry :=
  a.entries.reverse.find? (·.name == name)

def packed (a : Archive) (e : ArchiveEntry) : Except ArchiveFailure (List UInt8) := do
  if e.encrypted then throw .encrypted
  if (← field a.bytes e.header 4) ≠ entrySignature then throw .badEntryHeader
  let nameLength ← field a.bytes (e.header + 26) 2
  let extraLength ← field a.bytes (e.header + 28) 2
  return slice a.bytes (e.header + 30 + nameLength + extraLength) e.packedSize

inductive Method where
  | stored
  | deflated
  deriving DecidableEq, Repr

def Method.ofCode : Nat → Except ArchiveFailure Method
  | 0 => .ok .stored
  | 8 => .ok .deflated
  | _ => .error .unknownMethod

def Method.unpack (data : List UInt8) : Method → Except ReadFailure (List UInt8)
  | stored => .ok data
  | deflated => Inflate.inflate data

def verify (e : ArchiveEntry) (data : List UInt8) : Except ReadFailure (List UInt8) :=
  if Checksum.ofBytes data = e.checksum then .ok data else .error .badChecksum

def content (a : Archive) (e : ArchiveEntry) : Except RomError (List UInt8) := do
  let packed ← (a.packed e).mapError .archive
  let method ← (Method.ofCode e.method).mapError .archive
  -- Encryption that the flags do not announce is noticed last.
  if e.aes then throw (.archive .encrypted)
  (method.unpack packed >>= verify e).mapError .unreadable

def delivered (a : Archive) (name : String) : Except RomError (List UInt8) :=
  match a.find? name with
  | none => .error (.archive .notFound)
  | some e => a.content e

def extract (a : Archive) (name : String) (origin : UInt16) : Except RomError Rom :=
  Rom.ofDelivered name (a.delivered name) origin

end ChipEight.Archive
