import ChipEight.CommandLine.Program

namespace ChipEight.CommandLine

def seededSource (seed : UInt64) : RandomSource where
  word i :=
    let z := seed + UInt64.ofNat (i + 1) * 0x9E3779B97F4A7C15
    let z := (z ^^^ (z >>> 30)) * 0xBF58476D1CE4E5B9
    let z := (z ^^^ (z >>> 27)) * 0x94D049BB133111EB
    (z ^^^ (z >>> 31)).toUInt32

def seedOfBytes (bytes : List UInt8) : UInt64 :=
  bytes.foldl (fun seed byte => seed * 0x100 + byte.toUInt64) 0

def readContent (path : String) : IO FileContent := do
  try
    let data ← IO.FS.readBinFile path
    return .bytes data.toList
  catch e =>
    match e with
    | .noFileOrDirectory .. => return .refused .missing
    | .inappropriateType _ 20 _ => return .refused .notDirectory
    | .inappropriateType .. => return .directory
    | .invalidArgument _ 36 _ => return .refused .nameTooLong
    | _ => return .refused .denied

def transcriptOf (arguments : List String) : IO Transcript := do
  match parse arguments with
  | .error answer => return answer.transcript
  | .ok request =>
    let seed ← IO.getRandomBytes 8
    return request.perform (← readContent request.rom) (seededSource (seedOfBytes seed.toList))

end ChipEight.CommandLine

open ChipEight.CommandLine in
def main (arguments : List String) : IO UInt32 := do
  let transcript ← transcriptOf arguments
  IO.print transcript.stdout
  IO.eprint transcript.stderr
  return transcript.exit.toUInt32
