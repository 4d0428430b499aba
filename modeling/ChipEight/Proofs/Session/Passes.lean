import ChipEight.Session.Run
import Mathlib.Tactic.Common

namespace ChipEight

def Signal.event? : Signal → Option KeyEvent
  | key e => some e
  | interrupt => none

namespace Session

theorem foldl_heed (s : Session) (signals : List Signal) :
    signals.foldl heed s =
      { s with
        queue := s.queue ++ signals.filterMap Signal.event?
        interrupted := s.interrupted || signals.contains .interrupt } := by
  induction signals generalizing s with
  | nil => simp
  | cons signal signals ih =>
    cases signal with
    | key e =>
      have hkeys : (Signal.key e :: signals).filterMap Signal.event? =
          e :: signals.filterMap Signal.event? := rfl
      simp [ih, heed, send, hkeys]
    | interrupt =>
      have hkeys : (Signal.interrupt :: signals).filterMap Signal.event? =
          signals.filterMap Signal.event? := rfl
      simp [ih, heed, interrupt, hkeys]

end Session

structure Verdict where
  resumeAt : Option UInt16
  steps : UInt64
  board : Board
  heard : List Event
  halt : Option Halt

namespace Board

def handleAll (b : Board) (es : List KeyEvent) : Board :=
  es.foldl (fun b e => (b.handleKey e).board) b

def noted (b : Board) (e : KeyEvent) : List Event :=
  match (b.handleKey e).outcome with
  | .ok () => (b.handleKey e).log
  | .error f => (b.handleKey e).log ++ [.keyDropped e f]

def notedAll (b : Board) : List KeyEvent → List Event
  | [] => []
  | e :: es => b.noted e ++ (b.handleKey e).board.notedAll es

end Board

namespace Run

variable {σ : Type} {h : Host σ} {r : Run σ}

theorem report_report (h : Host σ) (r : Run σ) (es es' : List Event) :
    (r.report h es).report h es' = r.report h (es ++ es') := by
  simp [report]

theorem deliver_eq (h : Host σ) (r : Run σ) (e : KeyEvent) :
    r.deliver h e = (r.withBoard (r.board.handleKey e).board).report h (r.board.noted e) := by
  cases hout : (r.board.handleKey e).outcome with
  | ok u => simp only [deliver, Board.noted, hout]
  | error f => simp only [deliver, Board.noted, hout, report_report]

theorem foldl_deliver (h : Host σ) (r : Run σ) (es : List KeyEvent) :
    es.foldl (deliver h) r =
      (r.withBoard (r.board.handleAll es)).report h (r.board.notedAll es) := by
  induction es generalizing r with
  | nil => rfl
  | cons e es ih =>
    rw [List.foldl_cons, ih, deliver_eq]
    simp only [report, withBoard, Board.notedAll, Board.handleAll, List.foldl_append,
      List.foldl_cons]

theorem deliverAll_eq (h : Host σ) (r : Run σ) :
    r.deliverAll h =
      { r with
        session := { r.session with queue := [] }
        board := r.board.handleAll r.session.queue }.report h
          (r.board.notedAll r.session.queue) :=
  foldl_deliver h { r with session := { r.session with queue := [] } } r.session.queue

def ready (h : Host σ) (r : Run σ) : Run σ :=
  ((r.deliverAll h).countTimers h).present h

@[simp]
theorem session_countTimers (h : Host σ) (r : Run σ) :
    (r.countTimers h).session = r.session := by
  unfold countTimers
  split <;> rfl

theorem session_present (h : Host σ) (r : Run σ) :
    ∃ signals : List Signal, (r.present h).session = signals.foldl Session.heed r.session := by
  unfold present
  split
  · exact ⟨(h.refresh r.surroundings r.board.screen).2, rfl⟩
  · exact ⟨[], rfl⟩

theorem session_ready (h : Host σ) (r : Run σ) :
    ∃ signals : List Signal, (r.ready h).session =
      { r.session with
        queue := signals.filterMap Signal.event?
        interrupted := r.session.interrupted || signals.contains .interrupt } := by
  obtain ⟨signals, hs⟩ := session_present h ((r.deliverAll h).countTimers h)
  refine ⟨signals, ?_⟩
  rw [ready, hs, session_countTimers, deliverAll_eq, Session.foldl_heed]
  rfl

theorem session_ready_kept (h : Host σ) (r : Run σ) :
    (r.ready h).session.pace = r.session.pace ∧
      (r.ready h).session.breakpoints = r.session.breakpoints ∧
      (r.ready h).session.resumeAt = r.session.resumeAt ∧
      (r.ready h).session.steps = r.session.steps := by
  obtain ⟨signals, hs⟩ := session_ready h r
  rw [hs]
  exact ⟨rfl, rfl, rfl, rfl⟩

def AtBreakpoint (r : Run σ) : Prop :=
  r.session.resumeAt ≠ some r.board.cpu.pc ∧ r.board.cpu.pc ∈ r.session.breakpoints

instance (r : Run σ) : Decidable r.AtBreakpoint :=
  inferInstanceAs (Decidable (_ ∧ _))

def verdict (r : Run σ) : Verdict :=
  if r.AtBreakpoint then
    { resumeAt := some r.board.cpu.pc
      steps := r.session.steps
      board := r.board.setBroken true
      heard := [.breakpoint r.board.cpu.pc]
      halt := some (.breakpoint r.board.cpu.pc) }
  else match r.board.step.outcome with
    | .error f =>
      { resumeAt := none
        steps := r.session.steps
        board := r.board.step.board
        heard := r.board.step.log ++ [.halted r.board.cpu.pc f]
        halt := some (.fault f) }
    | .ok _ =>
      { resumeAt := none
        steps := r.session.steps + 1
        board := r.board.step.board
        heard := r.board.step.log
        halt := none }

theorem verdict_of_breakpoint (hb : r.AtBreakpoint) :
    r.verdict =
      { resumeAt := some r.board.cpu.pc
        steps := r.session.steps
        board := r.board.setBroken true
        heard := [.breakpoint r.board.cpu.pc]
        halt := some (.breakpoint r.board.cpu.pc) } :=
  if_pos hb

theorem verdict_of_error {f : Fault} (hb : ¬r.AtBreakpoint)
    (hf : r.board.step.outcome = .error f) :
    r.verdict =
      { resumeAt := none
        steps := r.session.steps
        board := r.board.step.board
        heard := r.board.step.log ++ [.halted r.board.cpu.pc f]
        halt := some (.fault f) } := by
  simp only [verdict, if_neg hb, hf]

theorem verdict_of_ok {notice : Notice} (hb : ¬r.AtBreakpoint)
    (hok : r.board.step.outcome = .ok notice) :
    r.verdict =
      { resumeAt := none
        steps := r.session.steps + 1
        board := r.board.step.board
        heard := r.board.step.log
        halt := none } := by
  simp only [verdict, if_neg hb, hok]

theorem attempt_eq (h : Host σ) (r : Run σ) :
    r.attempt h =
      ({ r with
          session :=
            { r.session with resumeAt := r.verdict.resumeAt, steps := r.verdict.steps }
          board := r.verdict.board }.report h r.verdict.heard,
        r.verdict.halt) := by
  by_cases hb : r.AtBreakpoint
  · rw [verdict_of_breakpoint hb]
    unfold AtBreakpoint at hb
    simp only [attempt, if_pos hb]
  · cases hout : r.board.step.outcome with
    | error f =>
      rw [verdict_of_error hb hout]
      unfold AtBreakpoint at hb
      simp only [attempt, if_neg hb, hout, report_report]
    | ok notice =>
      rw [verdict_of_ok hb hout]
      unfold AtBreakpoint at hb
      simp only [attempt, if_neg hb, hout]
      rfl

theorem halt_attempt (h : Host σ) (r : Run σ) : (r.attempt h).2 = r.verdict.halt := by
  rw [attempt_eq]

theorem verdict_cases (r : Run σ) :
    (r.AtBreakpoint ∧ r.verdict.halt = some (.breakpoint r.board.cpu.pc)) ∨
      (¬r.AtBreakpoint ∧ ∃ f, r.board.step.outcome = .error f ∧
        r.verdict.halt = some (.fault f)) ∨
      ¬r.AtBreakpoint ∧ (∃ notice, r.board.step.outcome = .ok notice) ∧
        r.verdict.halt = none := by
  by_cases hb : r.AtBreakpoint
  · exact .inl ⟨hb, by rw [verdict_of_breakpoint hb]⟩
  · cases hout : r.board.step.outcome with
    | error f => exact .inr (.inl ⟨hb, f, rfl, by rw [verdict_of_error hb hout]⟩)
    | ok notice => exact .inr (.inr ⟨hb, ⟨notice, rfl⟩, by rw [verdict_of_ok hb hout]⟩)

def barrier (r : Run σ) : Option Halt :=
  if r.session.interrupted then some .interrupted
  else if r.board.broken then some .broken
  else if r.board.shutdown then some .shutdown
  else none

theorem barrier_eq_none_iff :
    r.barrier = none ↔
      r.session.interrupted = false ∧ r.board.broken = false ∧ r.board.shutdown = false := by
  unfold barrier
  cases r.session.interrupted <;> cases r.board.broken <;> cases r.board.shutdown <;> simp

theorem pass_of_clear (hc : r.barrier = none) : r.pass h = (r.ready h).attempt h := by
  obtain ⟨hi, hb, hs⟩ := barrier_eq_none_iff.1 hc
  simp [pass, ready, hi, hb, hs]

def stopped (r : Run σ) : Run σ :=
  if r.session.interrupted then
    { r with
      session := { r.session with interrupted := false }
      board := r.board.setBroken true }
  else r

theorem pass_of_barrier {halt : Halt} (hb : r.barrier = some halt) :
    r.pass h = (r.stopped, some halt) := by
  unfold barrier at hb
  unfold pass stopped
  split_ifs at hb ⊢ <;> cases hb <;> rfl

theorem barrier_cases {halt : Halt} (hb : r.barrier = some halt) :
    halt = .interrupted ∨ halt = .broken ∨ halt = .shutdown := by
  unfold barrier at hb
  split_ifs at hb <;> cases hb <;> simp

theorem ne_stepLimit_of_barrier {halt : Halt} (hb : r.barrier = some halt) :
    halt ≠ .stepLimit := by
  rcases barrier_cases hb with rfl | rfl | rfl <;> nofun

theorem pass_ne_stepLimit (h : Host σ) (r : Run σ) : (r.pass h).2 ≠ some .stepLimit := by
  cases hb : r.barrier with
  | some halt =>
    rw [pass_of_barrier hb]
    exact fun he => ne_stepLimit_of_barrier hb (Option.some.inj he)
  | none =>
    rw [pass_of_clear hb, halt_attempt]
    rcases (r.ready h).verdict_cases with ⟨_, ha⟩ | ⟨_, f, _, ha⟩ | ⟨_, _, ha⟩ <;>
      rw [ha] <;> nofun

theorem proceed_of_halt {r' : Run σ} {halt : Halt} (hp : r.pass h = (r', some halt)) (n : Nat) :
    r.proceed h (n + 1) = (r', halt) := by
  rw [proceed, hp]

theorem proceed_of_none {r' : Run σ} (hp : r.pass h = (r', none)) (n : Nat) :
    r.proceed h (n + 1) = r'.elapse.proceed h n := by
  rw [proceed, hp]

theorem pass_result (h : Host σ) (r : Run σ) :
    (∃ r' halt, r.pass h = (r', some halt) ∧ halt ≠ .stepLimit) ∨ ∃ r', r.pass h = (r', none) := by
  have hne := pass_ne_stepLimit h r
  match hp : r.pass h with
  | (r', some halt) =>
    rw [hp] at hne
    exact .inl ⟨r', halt, rfl, fun he => hne (congrArg some he)⟩
  | (r', none) => exact .inr ⟨r', rfl⟩

def passes (h : Host σ) : Nat → Run σ → List (Run σ)
  | 0, _ => []
  | left + 1, r =>
    r :: match r.pass h with
      | (_, some _) => []
      | (stepped, none) => passes h left stepped.elapse

theorem passes_of_halt {r' : Run σ} {halt : Halt} (hp : r.pass h = (r', some halt)) (n : Nat) :
    r.passes h (n + 1) = [r] := by
  rw [passes, hp]

theorem passes_of_none {r' : Run σ} (hp : r.pass h = (r', none)) (n : Nat) :
    r.passes h (n + 1) = r :: r'.elapse.passes h n := by
  rw [passes, hp]

def GoesOn (h : Host σ) (p q : Run σ) : Prop :=
  ∃ stepped, p.pass h = (stepped, none) ∧ q = stepped.elapse

theorem isChain_passes (h : Host σ) (n : Nat) (r : Run σ) :
    (r.passes h n).IsChain (GoesOn h) := by
  induction n generalizing r with
  | zero => exact .nil
  | succ n ih =>
    rcases pass_result h r with ⟨r', halt, hp, _⟩ | ⟨r', hp⟩
    · rw [passes_of_halt hp]
      exact .singleton r
    · rw [passes_of_none hp]
      cases n with
      | zero => exact .singleton r
      | succ n => exact .cons_cons ⟨r', hp, rfl⟩ (ih r'.elapse)

def conclude : Run σ × Option Halt → Run σ × Halt
  | (r, some halt) => (r, halt)
  | (r, none) => (r.elapse, .stepLimit)

theorem conclude_of_halt {result : Run σ × Option Halt} {halt : Halt}
    (hhalt : result.2 = some halt) : conclude result = (result.1, halt) := by
  obtain ⟨r, _⟩ := result
  cases hhalt
  rfl

theorem rest_of_passes {n i : Nat} {p : Run σ} (hp : (r.passes h n)[i]? = some p) :
    ∃ m, (r.passes h n).drop i = p.passes h (m + 1) ∧ r.proceed h n = p.proceed h (m + 1) := by
  induction i generalizing r n with
  | zero =>
    cases n with
    | zero => cases hp
    | succ n =>
      obtain rfl : r = p := by
        rcases pass_result h r with ⟨r', halt, hpass, _⟩ | ⟨r', hpass⟩
        · rw [passes_of_halt hpass] at hp
          exact Option.some.inj hp
        · rw [passes_of_none hpass] at hp
          exact Option.some.inj hp
      exact ⟨n, rfl, rfl⟩
  | succ i ih =>
    cases n with
    | zero => cases hp
    | succ n =>
      rcases pass_result h r with ⟨r', halt, hpass, _⟩ | ⟨r', hpass⟩
      · rw [passes_of_halt hpass] at hp
        cases hp
      · rw [passes_of_none hpass] at hp ⊢
        rw [proceed_of_none hpass]
        exact ih hp

theorem proceed_eq_conclude (h : Host σ) (n : Nat) (r : Run σ) :
    ∃ last, (r.passes h (n + 1)).getLast? = some last ∧
      r.proceed h (n + 1) = conclude (last.pass h) := by
  induction n generalizing r with
  | zero =>
    rcases pass_result h r with ⟨r', halt, hp, _⟩ | ⟨r', hp⟩
    · rw [passes_of_halt hp, proceed_of_halt hp]
      exact ⟨r, rfl, by rw [hp, conclude]⟩
    · rw [passes_of_none hp, proceed_of_none hp]
      exact ⟨r, rfl, by rw [hp, conclude, proceed]⟩
  | succ n ih =>
    rcases pass_result h r with ⟨r', halt, hp, _⟩ | ⟨r', hp⟩
    · rw [passes_of_halt hp, proceed_of_halt hp]
      exact ⟨r, rfl, by rw [hp, conclude]⟩
    · obtain ⟨last, hlast, hend⟩ := ih r'.elapse
      rw [passes_of_none hp, proceed_of_none hp]
      exact ⟨last, by rw [List.getLast?_cons, hlast, Option.getD_some], hend⟩

theorem proceed_invariant {P : Run σ → Prop} (hpass : ∀ r, P r → P (r.pass h).1)
    (helapse : ∀ r, P r → P r.elapse) (n : Nat) (hr : P r) :
    (∀ p ∈ r.passes h n, P p) ∧ P (r.proceed h n).1 := by
  induction n generalizing r with
  | zero => exact ⟨fun p hp => absurd hp List.not_mem_nil, hr⟩
  | succ n ih =>
    have hnext := hpass r hr
    rcases pass_result h r with ⟨r', halt, hp, _⟩ | ⟨r', hp⟩
    · rw [hp] at hnext
      rw [passes_of_halt hp, proceed_of_halt hp]
      exact ⟨List.forall_mem_singleton.2 hr, hnext⟩
    · rw [hp] at hnext
      obtain ⟨hall, hend⟩ := ih (helapse r' hnext)
      rw [passes_of_none hp, proceed_of_none hp]
      exact ⟨List.forall_mem_cons.2 ⟨hr, hall⟩, hend⟩

end Run

namespace Session

variable {σ : Type}

def launch (h : Host σ) (s : Session) (b : Board) (own : σ) : Run σ :=
  (s.start b own).report h [.running b.cpu.pc]

theorem run_eq (h : Host σ) (s : Session) (b : Board) (own : σ) :
    s.run h b own = (s.launch h b own).proceed h s.allowance := rfl

theorem exists_allowance (s : Session) : ∃ n, s.allowance = n + 1 := by
  unfold allowance
  split
  · exact ⟨UInt64.size - 2, rfl⟩
  · split
    · exact ⟨0, rfl⟩
    · exact ⟨_, rfl⟩

end Session

end ChipEight
