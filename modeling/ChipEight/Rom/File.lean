import ChipEight.Archive.Extract

namespace ChipEight

inductive FileContent where
  | refused (f : ReadFailure)
  | directory
  | bytes (data : List UInt8)
  deriving DecidableEq, Repr

def FileContent.read : FileContent → Except ReadFailure (List UInt8)
  | refused f => .error f
  | directory => .error .directory
  | bytes data => .ok data

namespace FileName

def stem (name : List Char) : List Char :=
  match name.reverse.dropWhile (· ≠ '.') with
  | [] | ['.'] => name
  | _ :: rest => rest.reverse

def ofPath (path : String) : String :=
  match (path.splitOn "/").filter (fun part => part ≠ "" ∧ part ≠ ".") |>.getLast? with
  | none | some ".." => ""
  | some name => String.ofList (stem name.toList)

end FileName

def Rom.ofFile (path : String) (content : FileContent) (origin : UInt16) : Except RomError Rom :=
  ofDelivered (FileName.ofPath path) (content.read.mapError .unreadable) origin

def Archive.ofFile : FileContent → Except RomError Archive
  | .refused f => .error (.unreadable f)
  -- A directory can be opened as a file and fails once it is read as an archive.
  | .directory => .error (.archive (.unreadable .directory))
  | .bytes data => (Archive.ofBytes data.toArray).mapError .archive

end ChipEight
