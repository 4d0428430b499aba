import ChipEight.Board.Basic
import ChipEight.CommandLine.Arguments
import ChipEight.Cpu.Report
import ChipEight.Listing
import ChipEight.Rom.File
import ChipEight.Screen.Picture
import ChipEight.Session.Run

namespace ChipEight.CommandLine

structure Transcript where
  exit : UInt8 := 0
  stdout : String := ""
  stderr : String := ""
  deriving DecidableEq, Repr

structure Failure where
  context : String
  causes : List String
  deriving DecidableEq, Repr

def underHeading (heading text : String) : String :=
  let margin := List.replicate heading.length ' '
  heading ++ String.ofList (text.toList.flatMap fun c => if c = '\n' then '\n' :: margin else [c])

def causeLines : Nat → List String → List String
  | _, [] => []
  | i, cause :: rest =>
    underHeading (paddedDecimal 5 i ++ ": ") cause :: causeLines (i + 1) rest

namespace Failure

def causeText : List String → String
  | [cause] => underHeading "    " cause
  | causes => "\n".intercalate (causeLines 0 causes)

def text (f : Failure) : String :=
  "Error: " ++ f.context ++ "\n\nCaused by:\n" ++ causeText f.causes ++ "\n"

def transcript (f : Failure) (stdout : String := "") : Transcript :=
  { exit := 1, stdout, stderr := f.text }

end Failure

def version : String :=
  "chip8-board 0.6.0\n"

def helpSection (heading : String) (items : List (String × String)) : String :=
  let width := items.foldl (fun width item => max width item.1.length) 0
  "\n" ++ heading ++ ":\n" ++ String.join (items.map fun (name, text) =>
    "  " ++ name ++ blanks (width - name.length) ++ "  " ++ text ++ "\n")

def help : String :=
  "A chip8 board emulator with a headless host\n\nUsage: chip8-board [OPTIONS] <ROM>\n"
    ++ helpSection "Arguments" [(Setting.rom.helpName, Setting.rom.helpText)]
    ++ helpSection "Options"
      (Setting.options.map (fun s => (s.helpName, s.helpText))
        ++ [("-h, --help", "Print help"), ("-V, --version", "Print version")])

def Answer.transcript : Answer → Transcript
  | help => { stdout := CommandLine.help }
  | version => { stdout := CommandLine.version }
  | refuse e => { exit := 2, stderr := e.message }

namespace Request

def explain (context : String) (e : RomError) : Failure :=
  ⟨context, e.causes⟩

def loadRom (r : Request) (file : FileContent) : Except Failure Rom :=
  match r.entry with
  | none => (Rom.ofFile r.rom file r.origin).mapError (explain ("unable to read '" ++ r.rom ++ "'"))
  | some entry => do
    let archive ← (Archive.ofFile file).mapError
      (explain ("unable to open the archive '" ++ r.rom ++ "'"))
    (archive.extract entry r.origin).mapError
      (explain ("unable to extract '" ++ entry ++ "' from '" ++ r.rom ++ "'"))

def loadBoard (r : Request) (rom : Rom) (random : RandomSource) : Except Failure Board :=
  let reply := (Board.powerOn .beeper r.origin random).loadRom rom
  match reply.outcome with
  | .ok _ => .ok reply.board
  | .error f =>
    .error ⟨"unable to load '" ++ rom.name ++ "' to " ++ shortAddress r.origin.toNat,
      [f.report, f.message]⟩

def session (r : Request) : Session :=
  r.breakpoints.foldl (fun s pc => (s.addBreakpoint pc).1) { pace := r.pace }

def silentHost : Host Unit where
  hear _ _ := ()
  refresh _ _ := ((), [])

def haltText (name : String) (s : Session) (halt : Halt) (b : Board) : String :=
  "'" ++ name ++ "' halted after " ++ decimal s.steps.toNat ++ " steps: " ++ halt.text ++ "\n"
    ++ b.cpu.report ++ "\n" ++ b.screen.picture

def runBoard (r : Request) (name : String) (b : Board) : Transcript :=
  let (after, halt) := r.session.run silentHost b ()
  let stdout := haltText name after.session halt after.board
  match halt with
  | .fault f => Failure.transcript ⟨"'" ++ name ++ "' faulted", [f.report, f.message]⟩ stdout
  | _ => { stdout }

def perform (r : Request) (file : FileContent) (random : RandomSource) : Transcript :=
  match r.loadRom file with
  | .error f => f.transcript
  | .ok rom =>
    match r.loadBoard rom random with
    | .error f => f.transcript
    | .ok board =>
      match r.disassembly with
      | some count => { stdout := board.memory.listing r.origin count }
      | none => r.runBoard rom.name board

end Request

end ChipEight.CommandLine
