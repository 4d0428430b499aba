import ChipEight.Proofs.Board.Flow
import ChipEight.Proofs.Board.Keys
import ChipEight.Proofs.Board.Residue
import ChipEight.Proofs.Session.Console

namespace ChipEight

namespace Board

variable {p : Part}

theorem agreesAt_handleAll (b : Board) (es : List KeyEvent) (hp : p.keyed = false) :
    b.AgreesAt (b.handleAll es) p := by
  induction es generalizing b with
  | nil => exact .refl b p
  | cons e es ih => exact (b.agreesAt_handleKey e hp).trans (ih _)

end Board

namespace Run

variable {σ : Type} {h : Host σ} {r : Run σ}

theorem agreesAt_countTimers (h : Host σ) (r : Run σ) {p : Part} (hp : p.timed = false) :
    r.board.AgreesAt (r.countTimers h).board p := by
  unfold countTimers
  split
  · exact r.board.agreesAt_tick hp
  · exact .refl r.board p

theorem board_present (h : Host σ) (r : Run σ) : (r.present h).board = r.board := by
  unfold present
  split <;> rfl

theorem agreesAt_ready (h : Host σ) (r : Run σ) {p : Part} (hk : p.keyed = false)
    (ht : p.timed = false) : r.board.AgreesAt (r.ready h).board p := by
  have hdelivered : r.board.AgreesAt (r.deliverAll h).board p := by
    rw [deliverAll_eq]
    exact r.board.agreesAt_handleAll _ hk
  rw [ready, board_present]
  exact hdelivered.trans (agreesAt_countTimers h _ ht)

def signals (h : Host σ) (r : Run σ) : List Signal :=
  let counted := (r.deliverAll h).countTimers h
  if counted.display.due counted.now then
    (h.refresh counted.surroundings counted.board.screen).2
  else []

theorem session_ready_signals (h : Host σ) (r : Run σ) :
    (r.ready h).session =
      { r.session with
        queue := (r.signals h).filterMap Signal.event?
        interrupted := r.session.interrupted || (r.signals h).contains .interrupt } := by
  have hcounted : ((r.deliverAll h).countTimers h).session = { r.session with queue := [] } := by
    rw [session_countTimers, deliverAll_eq]
    rfl
  have hshown : (r.ready h).session =
      (r.signals h).foldl Session.heed ((r.deliverAll h).countTimers h).session := by
    rw [ready, present, signals]
    split <;> rfl
  rw [hshown, Session.foldl_heed, hcounted]
  rfl

theorem interrupted_attempt (h : Host σ) (r : Run σ) :
    (r.attempt h).1.session.interrupted = r.session.interrupted := by
  rw [attempt_eq]
  rfl

end Run

def Halt.Holds {σ : Type} (h : Host σ) (last ended : Run σ) : Halt → Prop
  | interrupted => ended.session.interrupted = false ∧ ended.board.broken = true
  | broken => ended.board.broken = true
  | shutdown => ended.board.shutdown = true ∧ ended.board.broken = false
  | breakpoint pc =>
    ended.board.cpu.pc = pc ∧ pc ∈ ended.session.breakpoints ∧ ended.board.broken = true
  | fault f =>
    let tried := (last.ready h).board
    tried.step.outcome = .error f ∧ ended.board = tried.step.board ∧
      ended.board.cpu.pc = tried.cpu.pc ∧ (ended.board.broken = true ↔ f.area = .opcode)
  | stepLimit => ended.board.broken = false ∧ ended.board.shutdown = false

namespace Run

variable {σ : Type} {h : Host σ} {r : Run σ}

theorem holds_stopped {halt : Halt} (hb : r.barrier = some halt) : halt.Holds h r r.stopped := by
  unfold barrier at hb
  unfold stopped
  by_cases hi : r.session.interrupted = true
  · rw [if_pos hi] at hb ⊢
    cases hb
    exact ⟨rfl, rfl⟩
  · rw [if_neg hi] at hb ⊢
    by_cases hbroken : r.board.broken = true
    · rw [if_pos hbroken] at hb
      cases hb
      exact hbroken
    · rw [if_neg hbroken] at hb
      by_cases hshutdown : r.board.shutdown = true
      · rw [if_pos hshutdown] at hb
        cases hb
        exact ⟨hshutdown, Bool.eq_false_of_not_eq_true hbroken⟩
      · rw [if_neg hshutdown] at hb
        cases hb

theorem holds_attempt (hbroken : (r.ready h).board.broken = false)
    (hshutdown : (r.ready h).board.shutdown = false) :
    (conclude ((r.ready h).attempt h)).2.Holds h r (conclude ((r.ready h).attempt h)).1 := by
  rw [attempt_eq]
  by_cases hb : (r.ready h).AtBreakpoint
  · rw [verdict_of_breakpoint hb]
    exact ⟨rfl, hb.2, rfl⟩
  · cases hout : (r.ready h).board.step.outcome with
    | error f =>
      have hpc : (r.ready h).board.AgreesAt (r.ready h).board.step.board .pc :=
        Board.control_step_of_error hout rfl
      have hopcode : (r.ready h).board.step.board.broken = true ↔ f.area = .opcode := by
        rw [Board.broken_step_of_error hout, hbroken, Bool.false_or, decide_eq_true_iff]
      rw [verdict_of_error hb hout]
      exact ⟨hout, rfl, hpc, hopcode⟩
    | ok notice =>
      obtain ⟨hbroken', hshutdown'⟩ := Board.flags_step_of_ok hout
      rw [verdict_of_ok hb hout]
      exact ⟨hbroken'.trans hbroken, hshutdown'.trans hshutdown⟩

theorem holds_conclude (h : Host σ) (r : Run σ) :
    (conclude (r.pass h)).2.Holds h r (conclude (r.pass h)).1 := by
  cases hb : r.barrier with
  | some halt =>
    rw [pass_of_barrier hb]
    exact holds_stopped hb
  | none =>
    obtain ⟨_, hbroken, hshutdown⟩ := barrier_eq_none_iff.1 hb
    rw [pass_of_clear hb]
    exact holds_attempt
      (Eq.trans (agreesAt_ready (p := .broken) h r rfl rfl) hbroken)
      (Eq.trans (agreesAt_ready (p := .shutdown) h r rfl rfl) hshutdown)

theorem proceed_of_interrupted (hi : r.session.interrupted = true) (n : Nat) :
    r.passes h (n + 1) = [r] ∧ r.proceed h (n + 1) = (r.stopped, .interrupted) := by
  have hbarrier : r.barrier = some .interrupted := if_pos hi
  have hp : r.pass h = (r.stopped, some .interrupted) := pass_of_barrier hbarrier
  exact ⟨passes_of_halt hp n, proceed_of_halt hp n⟩

theorem stopped_of_interrupted (hi : r.session.interrupted = true) :
    r.stopped.board = r.board.setBroken true ∧
      r.stopped.session = { r.session with interrupted := false } := by
  rw [stopped, if_pos hi]
  exact ⟨rfl, rfl⟩

theorem interrupted_of_signals (hs : .interrupt ∈ r.signals h) :
    ((r.ready h).attempt h).1.session.interrupted = true := by
  rw [interrupted_attempt, session_ready_signals]
  simp [hs]

theorem interrupt_outlasts_pass {n i : Nat} {p : Run σ} (hp : (r.passes h n)[i]? = some p)
    (hclear : p.barrier = none) (hs : .interrupt ∈ p.signals h) :
    let tried := (p.ready h).attempt h
    let ended := r.proceed h n
    ((r.passes h n)[i + 1]? = none ∧ ended = conclude tried ∧
      ended.1.session.interrupted = true) ∨
    ((r.passes h n)[i + 1]? = some tried.1.elapse ∧ (r.passes h n)[i + 2]? = none ∧
      tried.2 = none ∧ ended.2 = .interrupted ∧ ended.1.board = tried.1.board.setBroken true ∧
      ended.1.session = { tried.1.session with interrupted := false }) := by
  intro tried ended
  have hraised : tried.1.session.interrupted = true := interrupted_of_signals hs
  have hpass : p.pass h = tried := pass_of_clear hclear
  obtain ⟨m, hdrop, hend⟩ := rest_of_passes hp
  have hat (j : Nat) : (r.passes h n)[i + j]? = (p.passes h (m + 1))[j]? := by
    rw [← hdrop, List.getElem?_drop]
  rw [hat, hat]
  rcases ht : tried with ⟨q, _ | halt⟩
  · rw [ht] at hpass hraised
    rw [passes_of_none hpass]
    rw [proceed_of_none hpass] at hend
    cases m with
    | zero => exact .inl ⟨rfl, hend, (congrArg (·.1.session.interrupted) hend).trans hraised⟩
    | succ m =>
      have hnext : q.elapse.session.interrupted = true := hraised
      obtain ⟨hone, hstop⟩ := proceed_of_interrupted (h := h) hnext m
      obtain ⟨hboard, hsession⟩ := stopped_of_interrupted hnext
      have hended : ended = (q.elapse.stopped, .interrupted) := hend.trans hstop
      rw [hone, hended]
      exact .inr ⟨rfl, rfl, rfl, rfl, hboard, hsession⟩
  · rw [ht] at hpass hraised
    rw [passes_of_halt hpass]
    rw [proceed_of_halt hpass] at hend
    exact .inl ⟨rfl, hend, (congrArg (·.1.session.interrupted) hend).trans hraised⟩

end Run

def HostCall.runs {σ : Type} : HostCall σ → Bool
  | run => true
  | send _ | interrupt | addBreakpoint _ | removeBreakpoint _ | changeBoard _ | changeOwn _ => false

namespace Console

variable {σ : Type} {h : Host σ} {c : Console σ}

def ended (h : Host σ) (c : Console σ) : Run (σ × Journal) × Halt :=
  c.session.run h.journaled c.board (c.own, c.journal)

def KeepsInterrupt (h : Host σ) (c : Console σ) : Prop :=
  ∀ calls : List (HostCall σ), (∀ call ∈ calls, call.runs = false) →
    let later := c.after h calls
    later.session.interrupted = true ∧ later.passes h = [later.launch h] ∧
      (later.ended h).2 = .interrupted ∧
      (later.ended h).1.board = later.board.setBroken true ∧
      (later.ended h).1.session = { later.session with interrupted := false }

theorem interrupted_apply (hi : c.session.interrupted = true) {call : HostCall σ}
    (hcall : call.runs = false) : (c.apply h call).session.interrupted = true := by
  cases call with
  | run => cases hcall
  | interrupt => rfl
  | addBreakpoint pc =>
    simp only [apply, Session.addBreakpoint]
    split <;> exact hi
  | send e | removeBreakpoint pc | changeBoard change | changeOwn change => exact hi

theorem interrupted_after (hi : c.session.interrupted = true) {calls : List (HostCall σ)}
    (hcalls : ∀ call ∈ calls, call.runs = false) :
    (c.after h calls).session.interrupted = true := by
  induction calls generalizing c with
  | nil => exact hi
  | cons call calls ih =>
    obtain ⟨hcall, hrest⟩ := List.forall_mem_cons.1 hcalls
    exact ih (interrupted_apply hi hcall) hrest

theorem keepsInterrupt (hi : c.session.interrupted = true) : c.KeepsInterrupt h := by
  intro calls hcalls later
  have hraised : (later.launch h).session.interrupted = true := interrupted_after hi hcalls
  obtain ⟨n, hn⟩ := later.session.exists_allowance
  obtain ⟨hone, hstop⟩ := Run.proceed_of_interrupted (h := h.journaled) hraised n
  obtain ⟨hboard, hsession⟩ := Run.stopped_of_interrupted hraised
  rw [← hn] at hone hstop
  have hended : later.ended h = ((later.launch h).stopped, .interrupted) := hstop
  rw [hended]
  exact ⟨hraised, hone, rfl, hboard, hsession⟩

theorem halts_hold_interrupts_kept (h : Host σ) (c : Console σ) :
    let passes := c.passes h
    let ended := c.ended h
    (∃ last, passes.getLast? = some last ∧ ended.2.Holds h.journaled last ended.1) ∧
    (∀ (i : Nat) (p : Run (σ × Journal)), passes[i]? = some p → p.barrier = none →
      .interrupt ∈ p.signals h.journaled →
      let tried := (p.ready h.journaled).attempt h.journaled
      tried.1.session.interrupted = true ∧
      (passes[i + 1]? = none ∧ ended = Run.conclude tried ∧ (c.apply h .run).KeepsInterrupt h ∨
        passes[i + 1]? = some tried.1.elapse ∧ passes[i + 2]? = none ∧ tried.2 = none ∧
          ended.2 = .interrupted ∧ ended.1.board = tried.1.board.setBroken true ∧
          ended.1.session = { tried.1.session with interrupted := false })) ∧
    (c.session.interrupted = true → c.KeepsInterrupt h) ∧
    (c.apply h .interrupt).KeepsInterrupt h := by
  intro passes ended
  refine ⟨?_, fun i p hp hclear hs => ⟨Run.interrupted_of_signals hs, ?_⟩, keepsInterrupt,
    keepsInterrupt rfl⟩
  · obtain ⟨last, hlast, hend⟩ := c.exists_last_pass h
    have hended : ended = Run.conclude (last.pass h.journaled) := hend
    rw [hended]
    exact ⟨last, hlast, last.holds_conclude h.journaled⟩
  · rcases Run.interrupt_outlasts_pass hp hclear hs with ⟨hlast, hend, hraised⟩ | htaken
    · exact .inl ⟨hlast, hend, keepsInterrupt hraised⟩
    · exact .inr htaken

theorem halts_hold_interrupts_kept_undecodable :
    let h := Host.calling fun (_ : Unit) _ => ((), [.interrupt])
    let c := Console.opening (.unthrottledTo (some 3)) (Board.loaded [0x51, 0x21]) ()
    let cleared : HostCall Unit := .changeBoard (·.setBroken false)
    (c.ended h).2 = .fault (.undecodable 0x5121) ∧
      (((c.apply h .run).after h [cleared]).ended h).2 = .interrupted := by
  intro h c cleared
  obtain ⟨_, hraised, _⟩ := halts_hold_interrupts_kept h c
  have htried : (((c.launch h).ready h.journaled).attempt h.journaled).2 =
      some (.fault (.undecodable 0x5121)) := by
    decide +kernel
  obtain ⟨_, ⟨_, hend, hkept⟩ | ⟨_, _, hnone, _⟩⟩ :=
    hraised 0 (c.launch h) rfl rfl (by decide +kernel)
  · obtain ⟨_, _, hnext, _⟩ := hkept [cleared] (List.forall_mem_singleton.2 rfl)
    refine ⟨?_, hnext⟩
    rw [hend, Run.conclude_of_halt htried]
  · exact absurd (htried.symm.trans hnone) nofun

end Console

end ChipEight
