import ChipEight.Session.Basic
import ChipEight.Session.Cadence

namespace ChipEight

inductive Signal where
  | key (event : KeyEvent)
  | interrupt
  deriving DecidableEq, Repr

structure Host (σ : Type) where
  hear : σ → Event → σ
  refresh : σ → Screen → σ × List Signal

structure Run (σ : Type) where
  session : Session
  board : Board
  surroundings : σ
  now : Nat := 0
  timer : Cadence
  display : Cadence

def Session.heed (s : Session) : Signal → Session
  | .key e => s.send e
  | .interrupt => s.interrupt

namespace Run

variable {σ : Type}

def report (h : Host σ) (r : Run σ) (events : List Event) : Run σ :=
  { r with surroundings := events.foldl h.hear r.surroundings }

def withBoard (r : Run σ) (b : Board) : Run σ :=
  { r with board := b }

def deliver (h : Host σ) (r : Run σ) (e : KeyEvent) : Run σ :=
  let reply := r.board.handleKey e
  let handed := (r.withBoard reply.board).report h reply.log
  match reply.outcome with
  | .ok () => handed
  | .error f => handed.report h [.keyDropped e f]

def deliverAll (h : Host σ) (r : Run σ) : Run σ :=
  r.session.queue.foldl (deliver h) { r with session := { r.session with queue := [] } }

def countTimers (h : Host σ) (r : Run σ) : Run σ :=
  if r.timer.due r.now then
    let (board, events) := r.board.tick
    ({ r with board, timer := r.timer.advance r.now }).report h events
  else r

def present (h : Host σ) (r : Run σ) : Run σ :=
  if r.display.due r.now then
    let (surroundings, signals) := h.refresh r.surroundings r.board.screen
    { r with
      surroundings
      session := signals.foldl Session.heed r.session
      display := r.display.advance r.now }
  else r

def attempt (h : Host σ) (r : Run σ) : Run σ × Option Halt :=
  let pc := r.board.cpu.pc
  let stop := r.session.resumeAt ≠ some pc ∧ pc ∈ r.session.breakpoints
  let session := { r.session with resumeAt := if stop then some pc else none }
  if stop then
    ({ r with session, board := r.board.setBroken true }.report h [.breakpoint pc],
      some (.breakpoint pc))
  else
    let reply := r.board.step
    let stepped := { r with session, board := reply.board }.report h reply.log
    match reply.outcome with
    | .error f => (stepped.report h [.halted pc f], some (.fault f))
    | .ok _ => ({ stepped with session := { session with steps := session.steps + 1 } }, none)

def pass (h : Host σ) (r : Run σ) : Run σ × Option Halt :=
  if r.session.interrupted then
    ({ r with
        session := { r.session with interrupted := false }
        board := r.board.setBroken true },
      some .interrupted)
  else if r.board.broken then (r, some .broken)
  else if r.board.shutdown then (r, some .shutdown)
  else (((r.deliverAll h).countTimers h).present h).attempt h

def elapse (r : Run σ) : Run σ :=
  { r with now := r.now + (Cadence.intervalOf r.session.pace.cpu).getD 0 }

def proceed (h : Host σ) : Nat → Run σ → Run σ × Halt
  | 0, r => (r, .stepLimit)
  | left + 1, r =>
    match r.pass h with
    | (stopped, some halt) => (stopped, halt)
    | (stepped, none) => proceed h left stepped.elapse

end Run

namespace Session

variable {σ : Type}

def start (s : Session) (b : Board) (surroundings : σ) : Run σ where
  session := s
  board := b
  surroundings
  timer := .ofRate s.pace.timer
  display := .ofRate s.pace.refresh

def run (h : Host σ) (s : Session) (b : Board) (surroundings : σ) : Run σ × Halt :=
  ((s.start b surroundings).report h [.running b.cpu.pc]).proceed h s.allowance

end Session

end ChipEight
