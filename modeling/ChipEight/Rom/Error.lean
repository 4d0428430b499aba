import ChipEight.Archive.Failure
import ChipEight.Rom.Basic

namespace ChipEight

inductive RomError where
  | unreadable (f : ReadFailure)
  | archive (f : ArchiveFailure)
  | empty (name : String)
  | tooLarge (name : String) (length capacity : Nat)
  deriving DecidableEq, Repr

namespace RomError

def message : RomError → String
  | unreadable f => "Unable to read the rom: " ++ f.message
  | archive f => "Unable to extract the rom from the archive: " ++ f.message
  | empty name => "The rom '" ++ name ++ "' is empty."
  | tooLarge name length capacity =>
    "The rom '" ++ name ++ "' is " ++ decimal length ++ " bytes long, but only "
      ++ decimal capacity ++ " bytes are available."

def causes (e : RomError) : List String :=
  match e with
  | unreadable f => [e.message, f.message]
  | archive (.unreadable f) => [e.message, f.message, f.message]
  | archive f => [e.message, f.message]
  | empty _ | tooLarge .. => [e.message]

end RomError

namespace Rom

def check (name : String) (data : List UInt8) (capacity : Nat) : Except RomError Rom :=
  if data.isEmpty then .error (.empty name)
  else if capacity < data.length then .error (.tooLarge name data.length capacity)
  else .ok { name, data }

def ofDelivered (name : String) (delivered : Except RomError (List UInt8)) (origin : UInt16) :
    Except RomError Rom := do
  check name (← delivered) (capacityAt origin)

end Rom

end ChipEight
