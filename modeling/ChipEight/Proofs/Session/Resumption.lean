import ChipEight.Proofs.Session.Breakpoints
import ChipEight.Proofs.Session.Endings

namespace ChipEight

structure StandsAt (pc : UInt16) (stop : Option UInt16) (s : Session) (b : Board) : Prop where
  arrived : b.cpu.pc = pc
  listed : pc ∈ s.breakpoints
  remembered : s.resumeAt = stop

namespace Run

variable {σ : Type} {h : Host σ} {r r' q : Run σ} {pc : UInt16} {stop : Option UInt16}

def Stands (pc : UInt16) (stop : Option UInt16) (r : Run σ) : Prop :=
  StandsAt pc stop r.session r.board

/-- Executes the instruction there, which a processor that awaits a key does not. -/
def Executes (h : Host σ) (pc : UInt16) (q : Run σ) : Prop :=
  q.board.cpu.pc = pc ∧ ¬q.HaltsAt h pc ∧ q.board.cpu.mode = .running

theorem Stands.ready (hr : r.Stands pc stop) (h : Host σ) : (r.ready h).Stands pc stop := by
  obtain ⟨_, hlisted, hresume, _⟩ := session_ready_kept h r
  have hpc : (r.ready h).board.cpu.pc = r.board.cpu.pc := agreesAt_ready (p := .pc) h r rfl rfl
  exact ⟨hpc.trans hr.arrived, hlisted ▸ hr.listed, hresume.trans hr.remembered⟩

theorem Stands.stopped (hr : r.Stands pc stop) : r.stopped.Stands pc stop := by
  unfold Run.stopped
  split
  · exact ⟨hr.arrived, hr.listed, hr.remembered⟩
  · exact hr

theorem Stands.not_haltsAt (hr : r.Stands pc (some pc)) : ¬r.HaltsAt h pc := by
  intro hhalt
  obtain ⟨⟨hne, _⟩, rfl⟩ := haltsAt_iff.1 hhalt
  exact hne hr.remembered

theorem Stands.haltsAt (hr : r.Stands pc none) : r.HaltsAt h pc := by
  have hforgotten : r.session.resumeAt ≠ some r.board.cpu.pc := by
    rw [hr.remembered]
    nofun
  exact haltsAt_iff.2 ⟨⟨hforgotten, hr.arrived.symm ▸ hr.listed⟩, hr.arrived.symm⟩

theorem Stands.attempt_of_awaiting {x : RegisterName} (hr : r.Stands pc (some pc))
    (hwait : r.board.cpu.mode = .awaitingKey x) (h : Host σ) :
    (r.attempt h).1.Stands pc none ∧ (r.attempt h).2 = none := by
  have hstep := Board.step_of_awaiting hwait
  have hb : ¬r.AtBreakpoint := fun hb => hb.1 (hr.arrived.symm ▸ hr.remembered)
  rw [attempt_eq, verdict_of_ok hb (congrArg Reply.outcome hstep)]
  refine ⟨⟨?_, hr.listed, rfl⟩, rfl⟩
  exact (congrArg (fun reply => reply.board.cpu.pc) hstep).trans hr.arrived

theorem ne_breakpoint_of_barrier {halt : Halt} (hb : r.barrier = some halt) :
    halt ≠ .breakpoint pc := by
  rcases barrier_cases hb with rfl | rfl | rfl <;> nofun

theorem attempts_of_clear (hclear : r.barrier = none) (n : Nat) :
    ∃ more, r.attempts h (n + 1) = r.ready h :: more := by
  have hreached : r.reached h = some (r.ready h) := reached_of_clear hclear
  rcases pass_result h r with ⟨r', halt, hp, _⟩ | ⟨r', hp⟩
  · rw [attempts_of_halt hp, hreached]
    exact ⟨[], rfl⟩
  · rw [attempts_of_none hp, hreached]
    exact ⟨_, rfl⟩

structure Rests (h : Host σ) (n : Nat) (pc : UInt16) (stop : Option UInt16) (r : Run σ) :
    Prop where
  attempts : r.attempts h n = []
  halt : (r.proceed h n).2 ≠ .breakpoint pc
  stands : (r.proceed h n).1.Stands pc stop

theorem Stands.rests_zero (hr : r.Stands pc stop) (h : Host σ) : r.Rests h 0 pc stop :=
  ⟨rfl, nofun, hr⟩

theorem Stands.rests_of_barrier {halt : Halt} (hr : r.Stands pc stop) (hb : r.barrier = some halt)
    (h : Host σ) (n : Nat) : r.Rests h (n + 1) pc stop := by
  have hp := pass_of_barrier (h := h) hb
  refine ⟨?_, ?_, ?_⟩
  · rw [attempts_of_halt hp, reached_of_barrier hb]
    rfl
  · rw [proceed_of_halt hp]
    exact ne_breakpoint_of_barrier hb
  · rw [proceed_of_halt hp]
    exact hr.stopped

theorem Stands.rests_or_halts (hr : r.Stands pc none) (h : Host σ) (n : Nat) :
    r.Rests h n pc none ∨
      ∃ q, r.attempts h n = [q] ∧ q.HaltsAt h pc ∧ (r.proceed h n).2 = .breakpoint pc := by
  cases n with
  | zero => exact .inl (hr.rests_zero h)
  | succ n =>
    cases hb : r.barrier with
    | some halt => exact .inl (hr.rests_of_barrier hb h n)
    | none =>
      have hhalt : (r.ready h).HaltsAt h pc := (hr.ready h).haltsAt
      have hp : r.pass h = (((r.ready h).attempt h).1, some (.breakpoint pc)) :=
        (pass_of_clear hb).trans (Prod.ext rfl hhalt)
      refine .inr ⟨r.ready h, ?_, hhalt, ?_⟩
      · rw [attempts_of_halt hp, reached_of_clear hb]
        rfl
      · rw [proceed_of_halt hp]

theorem Stands.rests_or_goes_on (hr : r.Stands pc (some pc)) (h : Host σ) (n : Nat) :
    r.Rests h n pc (some pc) ∨
      ∃ first more, r.attempts h n = first :: more ∧ first.Stands pc (some pc) ∧
        (first.board.cpu.mode = .running ∨
          first.board.cpu.mode ≠ .running ∧ ∃ (rest : Run σ) (left : Nat), rest.Stands pc none ∧
            more = rest.attempts h left ∧ r.proceed h n = rest.proceed h left) := by
  cases n with
  | zero => exact .inl (hr.rests_zero h)
  | succ n =>
    cases hb : r.barrier with
    | some halt => exact .inl (hr.rests_of_barrier hb h n)
    | none =>
      have hfirst := hr.ready h
      rcases (r.ready h).board.running_or_awaiting with hrun | ⟨x, hwait⟩
      · obtain ⟨more, hmore⟩ := attempts_of_clear (h := h) hb n
        exact .inr ⟨_, more, hmore, hfirst, .inl hrun⟩
      · obtain ⟨hnext, hgoes⟩ := hfirst.attempt_of_awaiting hwait h
        have hp : r.pass h = (((r.ready h).attempt h).1, none) :=
          (pass_of_clear hb).trans (Prod.ext rfl hgoes)
        have hmore := attempts_of_none hp n
        rw [reached_of_clear hb] at hmore
        have hrest : ((r.ready h).attempt h).1.elapse.Stands pc none := hnext
        refine .inr ⟨_, _, hmore, hfirst, .inr ⟨?_, _, n, hrest, rfl, Run.proceed_of_none hp n⟩⟩
        rw [hwait]
        nofun

theorem Stands.executes (hr : r.Stands pc (some pc)) (hrun : r.board.cpu.mode = .running) :
    r.Executes h pc :=
  ⟨hr.arrived, hr.not_haltsAt, hrun⟩

theorem HaltsAt.not_executes (hq : q.HaltsAt h pc) : ¬q.Executes h pc :=
  fun hexecutes => hexecutes.2.1 hq

theorem stands_of_pass (hp : r.pass h = (r', some (.breakpoint pc))) :
    r'.Stands pc (some pc) := by
  cases hb : r.barrier with
  | some halt =>
    rw [pass_of_barrier hb] at hp
    exact absurd (Option.some.inj (Prod.mk.inj hp).2) (ne_breakpoint_of_barrier hb)
  | none =>
    rw [pass_of_clear hb] at hp
    obtain ⟨hat, rfl⟩ := haltsAt_iff.1 (congrArg Prod.snd hp)
    rw [attempt_eq, verdict_of_breakpoint hat] at hp
    obtain ⟨rfl, _⟩ := Prod.mk.inj hp
    exact ⟨rfl, hat.2, rfl⟩

theorem stands_of_proceed {n : Nat} (hend : (r.proceed h n).2 = .breakpoint pc) :
    (r.proceed h n).1.Stands pc (some pc) := by
  induction n generalizing r with
  | zero => cases hend
  | succ n ih =>
    rcases pass_result h r with ⟨q, halt, hp, _⟩ | ⟨q, hp⟩
    · rw [proceed_of_halt hp] at hend ⊢
      obtain rfl : halt = .breakpoint pc := hend
      exact stands_of_pass hp
    · rw [Run.proceed_of_none hp] at hend ⊢
      exact ih hend

end Run

inductive HostCall.Resumes {σ : Type} : HostCall σ → Prop where
  | run : Resumes .run
  | send (e : KeyEvent) : Resumes (.send e)
  | clearBreak : Resumes (.changeBoard (·.setBroken false))

namespace Console

variable {σ : Type} {h : Host σ} {c : Console σ} {pc : UInt16} {stop : Option UInt16}

def GetsPast (h : Host σ) (pc : UInt16) : Console σ → List (HostCall σ) → Prop
  | _, [] => True
  | c, .run :: calls =>
    (∃ q ∈ (c.launch h).attempts h.journaled c.session.allowance, q.Executes h.journaled pc) ∨
      (c.ended h).2 ≠ .breakpoint pc ∧ GetsPast h pc (c.apply h .run) calls
  | c, call :: calls => GetsPast h pc (c.apply h call) calls

def Stands (pc : UInt16) (stop : Option UInt16) (c : Console σ) : Prop :=
  StandsAt pc stop c.session c.board

theorem Stands.launch (hc : c.Stands pc stop) (h : Host σ) : (c.launch h).Stands pc stop :=
  ⟨hc.arrived, hc.listed, hc.remembered⟩

theorem stands_of_ended (hend : (c.ended h).2 = .breakpoint pc) :
    (c.apply h .run).Stands pc (some pc) :=
  Run.stands_of_proceed hend

theorem Stands.send (hc : c.Stands pc stop) (h : Host σ) (e : KeyEvent) :
    (c.apply h (.send e)).Stands pc stop :=
  ⟨hc.arrived, hc.listed, hc.remembered⟩

theorem Stands.clearBreak (hc : c.Stands pc stop) (h : Host σ) :
    (c.apply h (.changeBoard (·.setBroken false))).Stands pc stop :=
  ⟨hc.arrived, hc.listed, hc.remembered⟩

variable {calls : List (HostCall σ)}

theorem getsPast_run_of_executes {q : Run (σ × Journal)}
    (hq : q ∈ (c.launch h).attempts h.journaled c.session.allowance)
    (hexecutes : q.Executes h.journaled pc) : c.GetsPast h pc (.run :: calls) :=
  .inl ⟨q, hq, hexecutes⟩

theorem not_getsPast_run (hend : (c.ended h).2 = .breakpoint pc)
    (hnone : ∀ q ∈ (c.launch h).attempts h.journaled c.session.allowance,
      ¬q.Executes h.journaled pc) : ¬c.GetsPast h pc (.run :: calls) := by
  rintro (⟨q, hq, hexecutes⟩ | ⟨hne, _⟩)
  · exact hnone q hq hexecutes
  · exact hne hend

theorem getsPast_run_iff (hend : (c.ended h).2 ≠ .breakpoint pc)
    (hnone : ∀ q ∈ (c.launch h).attempts h.journaled c.session.allowance,
      ¬q.Executes h.journaled pc) :
    c.GetsPast h pc (.run :: calls) ↔ (c.apply h .run).GetsPast h pc calls := by
  refine ⟨?_, fun hpast => .inr ⟨hend, hpast⟩⟩
  rintro (⟨q, hq, hexecutes⟩ | ⟨_, hpast⟩)
  · exact absurd hexecutes (hnone q hq)
  · exact hpast

theorem getsPast_iff_of_stands_none (hc : c.Stands pc none)
    (hcalls : ∀ call ∈ calls, call.Resumes) :
    c.GetsPast h pc calls ↔ c.attempts h calls = [] := by
  induction calls generalizing c with
  | nil => exact iff_of_true trivial rfl
  | cons call calls ih =>
    obtain ⟨hcall, hlater⟩ := List.forall_mem_cons.1 hcalls
    cases hcall with
    | send e => exact ih (hc.send h e) hlater
    | clearBreak => exact ih (hc.clearBreak h) hlater
    | run =>
      rw [attempts]
      rcases (hc.launch h).rests_or_halts h.journaled c.session.allowance with
        hrests | ⟨q, hone, hhalt, hend⟩
      · have hnone := hrests.attempts
        rw [getsPast_run_iff hrests.halt (by simp [hnone]), hnone, List.nil_append]
        exact ih hrests.stands hlater
      · rw [hone]
        refine iff_of_false (not_getsPast_run hend ?_) nofun
        rw [hone]
        exact List.forall_mem_singleton.2 hhalt.not_executes

theorem getsPast_run_of_parked {first rest : Run (σ × Journal)} {left : Nat}
    (hcalls : ∀ call ∈ calls, call.Resumes) (hidle : ¬first.Executes h.journaled pc)
    (hrest : rest.Stands pc none)
    (hattempts : (c.launch h).attempts h.journaled c.session.allowance =
      first :: rest.attempts h.journaled left)
    (hend : c.ended h = rest.proceed h.journaled left) :
    c.GetsPast h pc (.run :: calls) ↔
      rest.attempts h.journaled left ++ (c.apply h .run).attempts h calls = [] := by
  rcases hrest.rests_or_halts h.journaled left with hrests | ⟨q, hone, hhalt, hstop⟩
  · have hstands : (c.apply h .run).Stands pc none := by
      have hfinal : (c.ended h).1.Stands pc none := hend ▸ hrests.stands
      exact hfinal
    rw [getsPast_run_iff (hend ▸ hrests.halt) (by simpa [hattempts, hrests.attempts] using hidle),
      hrests.attempts, List.nil_append]
    exact getsPast_iff_of_stands_none hstands hcalls
  · refine iff_of_false (not_getsPast_run (hend ▸ hstop) ?_) (by simp [hone])
    rw [hattempts, hone]
    simpa using ⟨hidle, hhalt.not_executes⟩

theorem getsPast_iff_of_stands_some (hc : c.Stands pc (some pc))
    (hcalls : ∀ call ∈ calls, call.Resumes) :
    match c.attempts h calls with
    | [] => c.GetsPast h pc calls
    | first :: more =>
      first.board.cpu.pc = pc ∧ ¬first.HaltsAt h.journaled pc ∧
        (c.GetsPast h pc calls ↔ first.board.cpu.mode = .running ∨ more = []) := by
  -- On the calls. Up to the first attempt the console stands where the stop left it.
  induction calls generalizing c with
  | nil => trivial
  | cons call calls ih =>
    obtain ⟨hcall, hlater⟩ := List.forall_mem_cons.1 hcalls
    cases hcall with
    | send e => exact ih (hc.send h e) hlater
    | clearBreak => exact ih (hc.clearBreak h) hlater
    | run =>
      rw [attempts]
      rcases (hc.launch h).rests_or_goes_on h.journaled c.session.allowance with
        hrests | ⟨first, more, hfirst, hstands, hgoes⟩
      · have hnone := hrests.attempts
        rw [getsPast_run_iff hrests.halt (by simp [hnone]), hnone, List.nil_append]
        exact ih hrests.stands hlater
      · rw [hfirst, List.cons_append]
        refine ⟨hstands.arrived, hstands.not_haltsAt, ?_⟩
        rcases hgoes with hrun | ⟨hparked, rest, left, hrest, rfl, hend⟩
        · have hexecuted : c.GetsPast h pc (.run :: calls) :=
            getsPast_run_of_executes (hfirst ▸ List.mem_cons_self) (hstands.executes hrun)
          exact iff_of_true hexecuted (.inl hrun)
        · have hidle : ¬first.Executes h.journaled pc := fun hexecutes => hparked hexecutes.2.2
          rw [or_iff_right hparked]
          exact getsPast_run_of_parked hlater hidle hrest hfirst hend

theorem resumption_gets_past_iff (h : Host σ) (c : Console σ)
    (hend : (c.ended h).2 = .breakpoint pc) (hcalls : ∀ call ∈ calls, call.Resumes) :
    match (c.apply h .run).attempts h calls with
    | [] => (c.apply h .run).GetsPast h pc calls
    | first :: more =>
      first.board.cpu.pc = pc ∧ ¬first.HaltsAt h.journaled pc ∧
        ((c.apply h .run).GetsPast h pc calls ↔
          first.board.cpu.mode = .running ∨ more = []) :=
  getsPast_iff_of_stands_some (stands_of_ended hend) hcalls

theorem resumption_gets_past_iff_jumping :
    let h := Host.silent
    let c := (opening (.unthrottledTo (some 10)) (Board.loaded [0x60, 0x05, 0x12, 0x00]) ()).apply h
      (.addBreakpoint 0x202)
    let calls : List (HostCall Unit) := [.changeBoard (·.setBroken false), .run]
    ((c.ended h).2 = .breakpoint 0x202 ∧ ∀ call ∈ calls, call.Resumes) ∧
      (c.apply h .run).GetsPast h 0x202 calls := by
  intro h c calls
  obtain ⟨hend, hmodes⟩ : (c.ended h).2 = .breakpoint 0x202 ∧
      ((c.apply h .run).attempts h calls).map (·.board.cpu.mode) =
        [.running, .running, .running] := by
    decide +kernel
  have hcalls : ∀ call ∈ calls, call.Resumes := by
    simpa [calls] using ⟨HostCall.Resumes.clearBreak, HostCall.Resumes.run⟩
  clear_value c
  refine ⟨⟨hend, hcalls⟩, ?_⟩
  have hpast := resumption_gets_past_iff h c hend hcalls
  cases hlater : (c.apply h .run).attempts h calls with
  | nil =>
    rw [hlater] at hmodes
    cases hmodes
  | cons first more =>
    rw [hlater] at hmodes hpast
    exact hpast.2.2.2 (.inl (List.cons.inj hmodes).1)

theorem parked_resumption_stops_again :
    let h := Host.silent
    let c := (opening (.unthrottledTo (some 10)) (Board.loaded [0xF1, 0x0A, 0x60, 0x07]) ()).apply h
      (.addBreakpoint 0x202)
    let cleared := (c.apply h .run).apply h (.changeBoard (·.setBroken false))
    (c.ended h).2 = .breakpoint 0x202 ∧ (cleared.ended h).2 = .breakpoint 0x202 ∧
      ¬(c.apply h .run).GetsPast h 0x202 [.changeBoard (·.setBroken false), .run] := by
  intro h c cleared
  obtain ⟨hend, hagain, hmodes⟩ : (c.ended h).2 = .breakpoint 0x202 ∧
      (cleared.ended h).2 = .breakpoint 0x202 ∧
      ∀ q ∈ (cleared.launch h).attempts h.journaled cleared.session.allowance,
        q.board.cpu.mode = .awaitingKey 1 := by
    decide +kernel
  clear_value c
  refine ⟨hend, hagain, not_getsPast_run (c := cleared) hagain fun q hq hexecutes => ?_⟩
  cases (hmodes q hq).symm.trans hexecutes.2.2

end Console

end ChipEight
