import ChipEight.CommandLine.Setting
import ChipEight.Text.ControlSequence

namespace ChipEight.CommandLine

inductive UsageError where
  | missingRom
  | unexpected (argument : String)
  | repeated (s : Setting)
  | valueMissing (s : Setting)
  | invalidValue (value : String) (s : Setting) (problem : ValueProblem)
  | needlessValue (value option : String)
  deriving DecidableEq, Repr

namespace UsageError

def pieces : UsageError → List String
  | missingRom =>
    ["the following required arguments were not provided:\n  ", Setting.usage .rom, ""]
  | unexpected argument => ["unexpected argument '", argument, "' found"]
  | repeated s => ["the argument '", s.usage, "' cannot be used multiple times"]
  | valueMissing s => ["a value is required for '", s.usage, "' but none was supplied"]
  | invalidValue value s problem =>
    ["invalid value '", value, "' for '", s.usage, "': " ++ problem.message]
  | needlessValue value option =>
    ["unexpected value '", value, "' for '", option, "' found; no more were expected"]

def styleChange : String := "\x1b[m"

def message (e : UsageError) : String :=
  -- Every change of style ends the control sequences before it.
  let body := String.intercalate styleChange e.pieces
  ControlSequence.strip
    ("error: " ++ body ++ "\n\nFor more information, try '" ++ styleChange ++ "--help"
      ++ styleChange ++ "'.\n")

end UsageError

structure Settings where
  rom : Option String := none
  entry : Option String := none
  origin : Option UInt16 := none
  cpuRate : Option UInt32 := none
  timerRate : Option UInt32 := none
  refreshRate : Option UInt32 := none
  steps : Option UInt64 := none
  breakpoints : List UInt16 := []
  disassembly : Option Nat := none
  deriving DecidableEq, Repr

namespace Settings

def once {α : Type} (s : Setting) (text : String) (known : Option α)
    (value : Except ValueProblem α) : Except UsageError (Option α) :=
  match known, value with
  | some _, _ => .error (.repeated s)
  | none, .error problem => .error (.invalidValue text s problem)
  | none, .ok value => .ok (some value)

def assign (given : Settings) (s : Setting) (text : String) : Except UsageError Settings :=
  match s with
  | .rom => if text.isEmpty then .error (.valueMissing s) else .ok { given with rom := some text }
  | .entry => return { given with entry := ← once s text given.entry (.ok text) }
  | .origin => return { given with origin := ← once s text given.origin (readAddress text) }
  | .cpuRate => return { given with cpuRate := ← once s text given.cpuRate (readRate text) }
  | .timerRate => return { given with timerRate := ← once s text given.timerRate (readRate text) }
  | .refreshRate =>
    return { given with refreshRate := ← once s text given.refreshRate (readRate text) }
  | .steps =>
    return { given with
      steps := ← once s text given.steps ((readCount text).map UInt64.ofNat) }
  | .disassembly =>
    return { given with disassembly := ← once s text given.disassembly (readCount text) }
  | .breakpoint =>
    match readAddress text with
    | .ok a => .ok { given with breakpoints := given.breakpoints ++ [a] }
    | .error problem => .error (.invalidValue text s problem)

end Settings

inductive Answer where
  | help
  | version
  | refuse (e : UsageError)
  deriving DecidableEq, Repr

structure Reading where
  given : Settings := {}
  pending : Option (Setting × Option String) := none
  romNamed : Bool := false
  onlyValues : Bool := false
  deriving DecidableEq, Repr

namespace Reading

def assign (r : Reading) (s : Setting) (text : String) : Except Answer Reading :=
  match r.given.assign s text with
  | .ok given => .ok { r with given, pending := none }
  | .error e => .error (.refuse e)

def settle (r : Reading) : Except Answer Reading :=
  match r.pending with
  | none => .ok r
  | some (s, none) => .error (.refuse (.valueMissing s))
  | some (s, some text) => r.assign s text

def await (r : Reading) (s : Setting) : Reading :=
  { r with pending := some (s, none) }

def unexpected (text : List Char) : Except Answer Reading :=
  .error (.refuse (.unexpected (String.ofList text)))

def option (r : Reading) (s : Setting) (value : Option String) : Except Answer Reading := do
  let settled ← r.settle
  match value with
  | none => return settled.await s
  | some text => settled.assign s text

def answer (r : Reading) (a : Answer) : Except Answer Reading := do
  let _ ← r.settle
  throw a

def flag (r : Reading) (name : String) (value : Option String) (a : Answer) :
    Except Answer Reading :=
  match value with
  | some text => .error (.refuse (.needlessValue text name))
  | none => r.answer a

def splitValue (text : List Char) : List Char × Option String :=
  match text.dropWhile (· ≠ '=') with
  | [] => (text, none)
  | _ :: value => (text.takeWhile (· ≠ '='), some (String.ofList value))

def longOption (r : Reading) (text : List Char) : Except Answer Reading :=
  let (name, value) := splitValue text
  match Setting.ofLong? name with
  | some s => r.option s value
  | none =>
    if name = "help".toList then r.flag "--help" value .help
    else if name = "version".toList then r.flag "--version" value .version
    else unexpected ('-' :: '-' :: name)

def attachedValue : List Char → Option String
  | [] => none
  | '=' :: value => some (String.ofList value)
  | value => some (String.ofList value)

def shortOption (r : Reading) (c : Char) (rest : List Char) : Except Answer Reading :=
  match Setting.ofShort? c with
  | some s => r.option s (attachedValue rest)
  | none =>
    if c = 'h' then r.answer .help
    else if c = 'V' then r.answer .version
    else unexpected ['-', c]

def romValue (r : Reading) (text : List Char) : Except Answer Reading :=
  if r.romNamed then unexpected text
  else do
    let settled ← r.settle
    return { settled with pending := some (.rom, some (String.ofList text)), romNamed := true }

def value (r : Reading) (text : List Char) : Except Answer Reading :=
  match r.pending with
  | some (s, none) => .ok { r with pending := some (s, some (String.ofList text)) }
  | _ => r.romValue text

def argument (r : Reading) (text : List Char) : Except Answer Reading :=
  if r.onlyValues then r.romValue text
  else match text with
    | ['-', '-'] => .ok { r with onlyValues := true }
    | '-' :: '-' :: option => r.longOption option
    | '-' :: c :: rest => r.shortOption c rest
    | _ => r.value text

end Reading

structure Request where
  rom : String
  entry : Option String
  origin : UInt16
  pace : Pace
  breakpoints : List UInt16
  disassembly : Option Nat
  deriving DecidableEq, Repr

def Settings.request (given : Settings) (rom : String) : Request where
  rom
  entry := given.entry
  origin := given.origin.getD programStart
  pace :=
    { cpu := given.cpuRate.getD Pace.default.cpu
      timer := given.timerRate.getD Pace.default.timer
      refresh := given.refreshRate.getD Pace.default.refresh
      limit := given.steps }
  breakpoints := given.breakpoints
  disassembly := given.disassembly

def parse (arguments : List String) : Except Answer Request := do
  let read ← arguments.foldlM (fun r text => Reading.argument r text.toList) {}
  let settled ← read.settle
  match settled.given.rom with
  | some rom => return settled.given.request rom
  | none => throw (.refuse .missingRom)

end ChipEight.CommandLine
