import ChipEight.Board.Step

namespace ChipEight

structure Pace where
  cpu : UInt32
  timer : UInt32
  refresh : UInt32
  limit : Option UInt64 := none
  deriving DecidableEq, Repr

namespace Pace

def default : Pace :=
  { cpu := 500, timer := 60, refresh := 120 }

def unthrottled : Pace :=
  { cpu := 0, timer := 0, refresh := 0 }

end Pace

inductive Halt where
  | interrupted
  | broken
  | shutdown
  | breakpoint (pc : UInt16)
  | fault (f : Fault)
  | stepLimit
  deriving DecidableEq, Repr

def Halt.text : Halt → String
  | interrupted => "interrupted"
  | broken => "break flag is set"
  | shutdown => "shutdown requested"
  | breakpoint pc => "breakpoint at " ++ shortAddress pc.toNat
  | fault f => "fault: " ++ f.report
  | stepLimit => "step limit reached"

structure Session where
  pace : Pace
  interrupted : Bool := false
  queue : List KeyEvent := []
  breakpoints : List UInt16 := []
  /-- The breakpoint the last run stopped at, which is stepped over once. -/
  resumeAt : Option UInt16 := none
  steps : UInt64 := 0
  deriving DecidableEq, Repr

def insertAscending (a : UInt16) : List UInt16 → List UInt16
  | [] => [a]
  | b :: rest => if a < b then a :: b :: rest else b :: insertAscending a rest

namespace Session

def addBreakpoint (s : Session) (pc : UInt16) : Session × Bool :=
  if pc ∈ s.breakpoints then (s, false)
  else ({ s with breakpoints := insertAscending pc s.breakpoints }, true)

def removeBreakpoint (s : Session) (pc : UInt16) : Session × Bool :=
  ({ s with breakpoints := s.breakpoints.filter (· ≠ pc) }, decide (pc ∈ s.breakpoints))

def send (s : Session) (e : KeyEvent) : Session :=
  { s with queue := s.queue ++ [e] }

def interrupt (s : Session) : Session :=
  { s with interrupted := true }

def allowance (s : Session) : Nat :=
  match s.pace.limit with
  -- Without a limit it is the step counter that bounds a run.
  | none => UInt64.size - 1
  -- The counter is held against its limit only after a step, so even a limit of zero lets one step
  -- pass, as does a limit that takes the counter over its end.
  | some limit => if s.steps + limit ≤ s.steps + 1 then 1 else (limit - 1).toNat + 1

end Session

end ChipEight
