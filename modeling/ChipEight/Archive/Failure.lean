namespace ChipEight

inductive ReadFailure where
  | missing
  | directory
  | notDirectory
  | nameTooLong
  | zeroInName
  | denied
  | endOfData
  | badChecksum
  | corruptDeflate
  | incompleteDeflate
  deriving DecidableEq, Repr

def ReadFailure.message : ReadFailure → String
  | missing => "No such file or directory (os error 2)"
  | directory => "Is a directory (os error 21)"
  | notDirectory => "Not a directory (os error 20)"
  | nameTooLong => "File name too long (os error 36)"
  | zeroInName => "file name contained an unexpected NUL byte"
  | denied => "Permission denied (os error 13)"
  | endOfData => "failed to fill whole buffer"
  | badChecksum => "Invalid checksum"
  | corruptDeflate => "corrupt deflate stream"
  | incompleteDeflate => "incomplete deflate stream"

inductive ArchiveFailure where
  | unreadable (f : ReadFailure)
  | tooShort
  | noDirectoryEnd
  | badDirectoryBounds
  | badDirectoryHeader
  | badEntryHeader
  | missingAesField
  | badAesFieldLength
  | badAesVendor
  | badAesVersion
  | badAesStrength
  | severalDisks
  | encrypted
  | unknownMethod
  | notFound
  deriving DecidableEq, Repr

inductive ArchiveFailureKind where
  | unreadable
  | invalid
  | unsupported
  | notFound
  deriving DecidableEq, Repr

namespace ArchiveFailure

def kind : ArchiveFailure → ArchiveFailureKind
  | unreadable _ => .unreadable
  | severalDisks | encrypted | unknownMethod | badAesFieldLength => .unsupported
  | notFound => .notFound
  | _ => .invalid

def reason : ArchiveFailure → String
  | unreadable f => f.message
  | tooShort => "Invalid zip header"
  | noDirectoryEnd => "Could not find central directory end"
  | badDirectoryBounds => "Invalid central directory size or offset"
  | badDirectoryHeader => "Invalid Central Directory header"
  | badEntryHeader => "Invalid local file header"
  | missingAesField => "AES encryption without AES extra data field"
  | badAesFieldLength => "AES extra data field has an unsupported length"
  | badAesVendor => "Invalid AES vendor"
  | badAesVersion => "Invalid AES vendor version"
  | badAesStrength => "Invalid AES encryption strength"
  | severalDisks => "Support for multi-disk files is not implemented"
  | encrypted => "Password required to decrypt file"
  | unknownMethod => "Compression method not supported"
  | notFound => "specified file not found in archive"

def message (f : ArchiveFailure) : String :=
  match f.kind with
  | .invalid => "invalid Zip archive: " ++ f.reason
  | .unsupported => "unsupported Zip archive: " ++ f.reason
  | .unreadable | .notFound => f.reason

end ArchiveFailure

end ChipEight
