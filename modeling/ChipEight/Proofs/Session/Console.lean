import ChipEight.Proofs.Session.Journal

namespace ChipEight

inductive HostCall (σ : Type) where
  | run
  | send (e : KeyEvent)
  | interrupt
  | addBreakpoint (pc : UInt16)
  | removeBreakpoint (pc : UInt16)
  | changeBoard (change : Board → Board)
  | changeOwn (change : σ → σ)

structure Console (σ : Type) where
  session : Session
  board : Board
  own : σ
  journal : Journal := {}

namespace Console

variable {σ : Type}

def opening (pace : Pace) (board : Board) (own : σ) : Console σ :=
  { session := { pace }, board, own }

def ofRun (r : Run (σ × Journal)) : Console σ :=
  { session := r.session, board := r.board, own := r.surroundings.1, journal := r.journal }

def apply (h : Host σ) (c : Console σ) : HostCall σ → Console σ
  | .run => ofRun (c.session.run h.journaled c.board (c.own, c.journal)).1
  | .send e =>
    { c with
      session := c.session.send e
      journal := { c.journal with sent := c.journal.sent ++ [e] } }
  | .interrupt => { c with session := c.session.interrupt }
  | .addBreakpoint pc => { c with session := (c.session.addBreakpoint pc).1 }
  | .removeBreakpoint pc => { c with session := (c.session.removeBreakpoint pc).1 }
  | .changeBoard change => { c with board := change c.board }
  | .changeOwn change => { c with own := change c.own }

def after (h : Host σ) (c : Console σ) (calls : List (HostCall σ)) : Console σ :=
  calls.foldl (apply h) c

def launch (h : Host σ) (c : Console σ) : Run (σ × Journal) :=
  c.session.launch h.journaled c.board (c.own, c.journal)

def passes (h : Host σ) (c : Console σ) : List (Run (σ × Journal)) :=
  (c.launch h).passes h.journaled c.session.allowance

theorem head?_passes (h : Host σ) (c : Console σ) : (c.passes h).head? = some (c.launch h) := by
  obtain ⟨n, hn⟩ := c.session.exists_allowance
  rw [passes, hn]
  rfl

theorem exists_last_pass (h : Host σ) (c : Console σ) :
    ∃ last, (c.passes h).getLast? = some last ∧
      c.session.run h.journaled c.board (c.own, c.journal) =
        Run.conclude (last.pass h.journaled) := by
  obtain ⟨n, hn⟩ := c.session.exists_allowance
  rw [passes, Session.run_eq, hn]
  exact Run.proceed_eq_conclude h.journaled n (c.launch h)

@[simp]
theorem journal_launch (h : Host σ) (c : Console σ) : (c.launch h).journal = c.journal :=
  Run.journal_report_of_nil rfl

theorem after_invariant {h : Host σ} {P : Console σ → Prop}
    (happly : ∀ c call, P c → P (c.apply h call)) {c : Console σ} (hc : P c)
    (calls : List (HostCall σ)) : P (c.after h calls) := by
  induction calls generalizing c with
  | nil => exact hc
  | cons call calls ih => exact ih (happly c call hc)

end Console

end ChipEight
