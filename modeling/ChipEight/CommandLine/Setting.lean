import ChipEight.CommandLine.Address
import ChipEight.Session.Basic

namespace ChipEight.CommandLine

inductive Setting where
  | rom
  | entry
  | origin
  | cpuRate
  | timerRate
  | refreshRate
  | steps
  | breakpoint
  | disassembly
  deriving DecidableEq, Repr

namespace Setting

def options : List Setting :=
  [entry, origin, cpuRate, timerRate, refreshRate, steps, breakpoint, disassembly]

def long : Setting → String
  | rom => "rom"
  | entry => "entry"
  | origin => "origin"
  | cpuRate => "cpu-hz"
  | timerRate => "timer-hz"
  | refreshRate => "refresh-hz"
  | steps => "steps"
  | breakpoint => "break"
  | disassembly => "disasm"

def short : Setting → Option Char
  | entry => some 'e'
  | origin => some 'o'
  | steps => some 's'
  | breakpoint => some 'b'
  | disassembly => some 'd'
  | rom | cpuRate | timerRate | refreshRate => none

def placeholder : Setting → String
  | rom => "<ROM>"
  | entry => "<ENTRY>"
  | origin => "<ORIGIN>"
  | cpuRate => "<CPU_HZ>"
  | timerRate => "<TIMER_HZ>"
  | refreshRate => "<REFRESH_HZ>"
  | steps => "<STEPS>"
  | breakpoint => "<BREAKPOINTS>"
  | disassembly => "<COUNT>"

def usage : Setting → String
  | rom => rom.placeholder
  | s => "--" ++ s.long ++ " " ++ s.placeholder

def explanation : Setting → String
  | rom => "Path to the rom file or to a zip archive of roms"
  | entry => "Name of the rom inside of the zip archive"
  | origin => "Address the rom is loaded to and started at"
  | cpuRate => "Instructions per second, 0 is unthrottled"
  | timerRate => "Timer ticks per second, 0 is unthrottled"
  | refreshRate => "Screen refreshes per second, 0 is unthrottled"
  | steps => "Stop after this many instructions"
  | breakpoint => "Stop once the program counter reaches the address"
  | disassembly => "Only print the disassembly of COUNT instructions"

def preset : Setting → Option String
  | origin => some (shortAddress programStart.toNat)
  | cpuRate => some (decimal Pace.default.cpu.toNat)
  | timerRate => some (decimal Pace.default.timer.toNat)
  | refreshRate => some (decimal Pace.default.refresh.toNat)
  | rom | entry | steps | breakpoint | disassembly => none

def helpName : Setting → String
  | rom => rom.usage
  | s =>
    match s.short with
    | some c => "-" ++ c.toString ++ ", " ++ s.usage
    | none => blanks 4 ++ s.usage

def helpText (s : Setting) : String :=
  match s.preset with
  | some value => s.explanation ++ " [default: " ++ value ++ "]"
  | none => s.explanation

def ofLong? (name : List Char) : Option Setting :=
  options.find? fun s => s.long.toList == name

def ofShort? (c : Char) : Option Setting :=
  options.find? fun s => s.short == some c

end Setting

inductive ValueProblem where
  | address (text : String) (e : NumeralError)
  | numeral (e : NumeralError)
  | notInRange (value : Int) (last : Nat)
  deriving DecidableEq, Repr

def integerText (value : Int) : String :=
  if value < 0 then "-" ++ decimal value.natAbs else decimal value.natAbs

def ValueProblem.message : ValueProblem → String
  | address text e => "invalid address '" ++ text ++ "': " ++ e.message
  | numeral e => e.message
  | notInRange value last => integerText value ++ " is not in 0..=" ++ decimal last

def readAddress (text : String) : Except ValueProblem UInt16 :=
  (Address.parse text).mapError (.address text)

def maxWord64 : Nat := UInt64.size - 1

def readCount (text : String) : Except ValueProblem Nat :=
  (readUnsigned 10 maxWord64 text.toList).mapError .numeral

def maxRate : Nat := UInt32.size - 1

def readRate (text : String) : Except ValueProblem UInt32 :=
  match readSigned text.toList with
  | .error e => .error (.numeral e)
  | .ok value =>
    if 0 ≤ value ∧ value ≤ maxRate then .ok (UInt32.ofNat value.toNat)
    else .error (.notInRange value maxRate)

end ChipEight.CommandLine
