import ChipEight.Proofs.Board.Effects
import ChipEight.Proofs.Board.Fetch
import ChipEight.Proofs.Session.Unthrottled

namespace ChipEight

def Event.keyEvent? : Event → Option KeyEvent
  | keyMoved e | keyDropped e _ => some e
  | _ => none

structure Journal where
  handed : List KeyEvent := []
  sent : List KeyEvent := []
  frames : List Screen := []
  deriving DecidableEq

namespace Host

variable {σ : Type}

def calling (refresh : σ → Screen → σ × List Signal) : Host σ where
  hear own _ := own
  refresh

def silent : Host Unit :=
  calling fun _ _ => ((), [])

def journaled (h : Host σ) : Host (σ × Journal) where
  hear s e := (h.hear s.1 e, { s.2 with handed := s.2.handed ++ e.keyEvent?.toList })
  refresh s screen :=
    let (own, signals) := h.refresh s.1 screen
    ((own,
      { s.2 with
        sent := s.2.sent ++ signals.filterMap Signal.event?
        frames := s.2.frames ++ [screen] }), signals)

theorem foldl_hear_journaled (h : Host σ) (s : σ × Journal) (es : List Event) :
    es.foldl h.journaled.hear s =
      (es.foldl h.hear s.1,
        { s.2 with handed := s.2.handed ++ es.filterMap Event.keyEvent? }) := by
  induction es generalizing s with
  | nil => simp
  | cons e es ih =>
    rw [List.foldl_cons, ih]
    cases hk : e.keyEvent? <;> simp [journaled, hk]

theorem refresh_journaled (h : Host σ) (s : σ × Journal) (screen : Screen) :
    h.journaled.refresh s screen =
      (((h.refresh s.1 screen).1,
        { s.2 with
          sent := s.2.sent ++ (h.refresh s.1 screen).2.filterMap Signal.event?
          frames := s.2.frames ++ [screen] }), (h.refresh s.1 screen).2) :=
  rfl

end Host

namespace Board

@[simp]
theorem keyEvents_press (c : Cpu) (key : Key) :
    (c.press key).2.filterMap Event.keyEvent? = [] := by
  unfold Cpu.press
  split <;> rfl

@[simp]
theorem keyEvents_noted (b : Board) (e : KeyEvent) :
    (b.noted e).filterMap Event.keyEvent? = [e] := by
  cases hk : Key.ofNat? e.key with
  | error f =>
    simp only [noted, handleKey, hk]
    rfl
  | ok key =>
    cases hd : e.down with
    | true =>
      simp only [noted, handleKey, hk, hd, if_true]
      exact congrArg (e :: ·) (keyEvents_press b.cpu key)
    | false =>
      simp only [noted, handleKey, hk, hd]
      rfl

@[simp]
theorem keyEvents_notedAll (b : Board) (es : List KeyEvent) :
    (b.notedAll es).filterMap Event.keyEvent? = es := by
  induction es generalizing b with
  | nil => rfl
  | cons e es ih => simp [notedAll, ih]

@[simp]
theorem keyEvents_tick (b : Board) : b.tick.2.filterMap Event.keyEvent? = [] := by
  unfold tick Tone.turnEvents
  simp only
  split <;> rfl

@[simp]
theorem keyEvents_execute (b : Board) (i : Instruction) :
    (b.execute i).log.filterMap Event.keyEvent? = [] := by
  rcases b.log_execute i with h | ⟨target, h⟩ | ⟨x, h⟩ <;> simp [h, Event.keyEvent?]

@[simp]
theorem keyEvents_step (b : Board) : b.step.log.filterMap Event.keyEvent? = [] := by
  rcases b.running_or_awaiting with hrun | ⟨x, hwait⟩
  · rcases b.fetch_cases with hout | ⟨hin, hw⟩ | ⟨i, hi⟩
    · rw [step_of_unfetchable hrun hout]
      rfl
    · rw [step_of_undecodable hrun hin hw]
      rfl
    · rw [step_of_fetches hrun hi]
      simp only [Effect.log_finish]
      exact b.keyEvents_execute i
  · rw [step_of_awaiting hwait]
    rfl

end Board

namespace Run

variable {σ : Type} {h : Host σ} {r : Run (σ × Journal)}

def journal (r : Run (σ × Journal)) : Journal :=
  r.surroundings.2

theorem journal_report (h : Host σ) (r : Run (σ × Journal)) (es : List Event) :
    (r.report h.journaled es).journal =
      { r.journal with handed := r.journal.handed ++ es.filterMap Event.keyEvent? } := by
  simp only [journal, report, Host.foldl_hear_journaled]

theorem journal_report_of_nil {es : List Event} (hes : es.filterMap Event.keyEvent? = []) :
    (r.report h.journaled es).journal = r.journal := by
  rw [journal_report, hes, List.append_nil]

theorem Prompt.journal_ready (hr : r.Prompt) :
    (r.ready h.journaled).journal =
      { handed := r.journal.handed ++ r.session.queue
        sent := r.journal.sent ++ (r.ready h.journaled).session.queue
        frames := r.journal.frames ++ [(r.ready h.journaled).board.screen] } := by
  have hkeys : (r.board.notedAll r.session.queue ++
      (r.board.handleAll r.session.queue).tick.2).filterMap Event.keyEvent? = r.session.queue := by
    simp
  have hheard : (r.overheard h.journaled).2 =
      { r.journal with handed := r.journal.handed ++ r.session.queue } := by
    rw [overheard, Host.foldl_hear_journaled, hkeys]
    rfl
  rw [hr.ready_eq]
  simp only [journal, Host.refresh_journaled, hheard, Session.foldl_heed, List.nil_append]

@[simp]
theorem keyEvents_verdict (r : Run σ) : r.verdict.heard.filterMap Event.keyEvent? = [] := by
  by_cases hb : r.AtBreakpoint
  · rw [verdict_of_breakpoint hb]
    rfl
  · cases hout : r.board.step.outcome with
    | error f =>
      rw [verdict_of_error hb hout, List.filterMap_append, Board.keyEvents_step]
      rfl
    | ok notice =>
      rw [verdict_of_ok hb hout]
      exact Board.keyEvents_step r.board

@[simp]
theorem journal_attempt (h : Host σ) (r : Run (σ × Journal)) :
    (r.attempt h.journaled).1.journal = r.journal := by
  rw [attempt_eq]
  exact journal_report_of_nil r.keyEvents_verdict

@[simp]
theorem journal_stopped (r : Run (σ × Journal)) : r.stopped.journal = r.journal := by
  unfold stopped
  split <;> rfl

def forget (r : Run (σ × Journal)) : Run σ where
  session := r.session
  board := r.board
  surroundings := r.surroundings.1
  now := r.now
  timer := r.timer
  display := r.display

theorem forget_report (h : Host σ) (r : Run (σ × Journal)) (es : List Event) :
    (r.report h.journaled es).forget = r.forget.report h es := by
  simp only [forget, report, Host.foldl_hear_journaled]

theorem forget_ready (h : Host σ) (r : Run (σ × Journal)) :
    (r.ready h.journaled).forget = r.forget.ready h := by
  have hdelivered : (r.deliverAll h.journaled).forget = r.forget.deliverAll h := by
    rw [deliverAll_eq, deliverAll_eq]
    exact forget_report h _ _
  have hcounted (q : Run (σ × Journal)) :
      (q.countTimers h.journaled).forget = q.forget.countTimers h := by
    by_cases hdue : q.timer.due q.now = true
    · simp only [countTimers, hdue, if_true, forget_report]
      simp only [forget, hdue, if_true]
    · simp [countTimers, forget, hdue]
  have hshown (q : Run (σ × Journal)) :
      (q.present h.journaled).forget = q.forget.present h := by
    by_cases hdue : q.display.due q.now = true <;>
      simp [present, forget, Host.journaled, hdue]
  rw [ready, hshown, hcounted, hdelivered, ready]

theorem forget_attempt (h : Host σ) (r : Run (σ × Journal)) :
    (r.attempt h.journaled).1.forget = (r.forget.attempt h).1 ∧
      (r.attempt h.journaled).2 = (r.forget.attempt h).2 := by
  rw [attempt_eq, attempt_eq]
  exact ⟨forget_report h _ _, rfl⟩

theorem forget_stopped (r : Run (σ × Journal)) : r.stopped.forget = r.forget.stopped := by
  unfold stopped
  split <;> simp_all [forget]

theorem forget_pass (h : Host σ) (r : Run (σ × Journal)) :
    (r.pass h.journaled).1.forget = (r.forget.pass h).1 ∧
      (r.pass h.journaled).2 = (r.forget.pass h).2 := by
  cases hb : r.barrier with
  | some halt =>
    have hb' : r.forget.barrier = some halt := hb
    rw [pass_of_barrier hb, pass_of_barrier hb']
    exact ⟨r.forget_stopped, rfl⟩
  | none =>
    have hb' : r.forget.barrier = none := hb
    rw [pass_of_clear hb, pass_of_clear hb', ← forget_ready]
    exact forget_attempt h _

theorem forget_proceed (h : Host σ) (n : Nat) (r : Run (σ × Journal)) :
    (r.proceed h.journaled n).1.forget = (r.forget.proceed h n).1 ∧
      (r.proceed h.journaled n).2 = (r.forget.proceed h n).2 := by
  induction n generalizing r with
  | zero => exact ⟨rfl, rfl⟩
  | succ n ih =>
    obtain ⟨hstate, hhalt⟩ := forget_pass h r
    rcases pass_result h.journaled r with ⟨r', halt, hp, _⟩ | ⟨r', hp⟩
    · rw [hp] at hstate hhalt
      have hp' : r.forget.pass h = (r'.forget, some halt) := Prod.ext hstate.symm hhalt.symm
      rw [proceed_of_halt hp, proceed_of_halt hp']
      exact ⟨rfl, rfl⟩
    · rw [hp] at hstate hhalt
      have hp' : r.forget.pass h = (r'.forget, none) := Prod.ext hstate.symm hhalt.symm
      rw [proceed_of_none hp, proceed_of_none hp']
      exact ih r'.elapse

end Run

namespace Session

variable {σ : Type}

theorem forget_run (h : Host σ) (s : Session) (b : Board) (own : σ) (j : Journal) :
    (s.run h.journaled b (own, j)).1.forget = (s.run h b own).1 ∧
      (s.run h.journaled b (own, j)).2 = (s.run h b own).2 := by
  have hstart : ((s.start b (own, j)).report h.journaled [.running b.cpu.pc]).forget =
      (s.start b own).report h [.running b.cpu.pc] := Run.forget_report h _ _
  unfold run
  rw [← hstart]
  exact Run.forget_proceed h _ _

end Session

end ChipEight
