import ChipEight.Proofs.Board.Flow
import ChipEight.Proofs.Session.Journal

namespace ChipEight

structure Rounds where
  board : Board
  frames : List Screen := []
  ticks : Nat := 0
  steps : Nat := 0
  fault : Option Fault := none

namespace Rounds

def halt (l : Rounds) : Halt :=
  match l.fault with
  | some f => .fault f
  | none => .stepLimit

end Rounds

namespace Board

def plainLoop : Nat → Board → Rounds
  | 0, b => { board := b }
  | left + 1, b =>
    let ticked := b.tick.1
    let reply := ticked.step
    match reply.outcome with
    | .error f => { board := reply.board, frames := [ticked.screen], ticks := 1, fault := some f }
    | .ok _ =>
      let rest := plainLoop left reply.board
      { rest with
        frames := ticked.screen :: rest.frames
        ticks := rest.ticks + 1
        steps := rest.steps + 1 }

variable {b : Board} {notice : Notice}

theorem plainLoop_of_error {f : Fault} (hf : b.tick.1.step.outcome = .error f) (n : Nat) :
    b.plainLoop (n + 1) =
      { board := b.tick.1.step.board
        frames := [b.tick.1.screen]
        ticks := 1
        fault := some f } := by
  simp only [plainLoop, hf]

theorem plainLoop_of_ok (hok : b.tick.1.step.outcome = .ok notice) (n : Nat) :
    b.plainLoop (n + 1) =
      { b.tick.1.step.board.plainLoop n with
        frames := b.tick.1.screen :: (b.tick.1.step.board.plainLoop n).frames
        ticks := (b.tick.1.step.board.plainLoop n).ticks + 1
        steps := (b.tick.1.step.board.plainLoop n).steps + 1 } := by
  simp only [plainLoop, hok]

theorem plainLoop_counts (n : Nat) (b : Board) :
    (b.plainLoop n).frames.length = (b.plainLoop n).ticks ∧
      match (b.plainLoop n).fault with
      | some _ => (b.plainLoop n).steps < n ∧ (b.plainLoop n).ticks = (b.plainLoop n).steps + 1
      | none => (b.plainLoop n).steps = n ∧ (b.plainLoop n).ticks = n := by
  induction n generalizing b with
  | zero => exact ⟨rfl, rfl, rfl⟩
  | succ n ih =>
    cases hout : b.tick.1.step.outcome with
    | error f =>
      rw [plainLoop_of_error hout]
      exact ⟨rfl, Nat.succ_pos n, rfl⟩
    | ok notice =>
      obtain ⟨hframes, hcounts⟩ := ih b.tick.1.step.board
      rw [plainLoop_of_ok hout]
      refine ⟨congrArg (· + 1) hframes, ?_⟩
      cases hf : (b.tick.1.step.board.plainLoop n).fault with
      | some f =>
        rw [hf] at hcounts
        simp only
        omega
      | none =>
        rw [hf] at hcounts
        simp only
        omega

theorem plainLoop_steps_le (n : Nat) (b : Board) : (b.plainLoop n).steps ≤ n := by
  have hcounts := (b.plainLoop_counts n).2
  split at hcounts <;> omega

end Board

namespace Session

theorem toNat_goal {steps limit : UInt64} (hroom : steps.toNat + limit.toNat < UInt64.size) :
    (steps + limit).toNat = steps.toNat + limit.toNat :=
  (UInt64.toNat_add _ _).trans (Nat.mod_eq_of_lt hroom)

theorem toNat_count {steps : UInt64} {n : Nat} (hroom : steps.toNat + n < UInt64.size) :
    (steps + UInt64.ofNat n).toNat = steps.toNat + n := by
  have hn : (UInt64.ofNat n).toNat = n :=
    UInt64.toNat_ofNat'.trans (Nat.mod_eq_of_lt (Nat.lt_of_le_of_lt (Nat.le_add_left _ _) hroom))
  rw [← hn] at hroom
  rw [toNat_goal hroom, hn]

theorem count_succ (steps : UInt64) (n : Nat) :
    steps + UInt64.ofNat (n + 1) = steps + 1 + UInt64.ofNat n := by
  rw [UInt64.ofNat_add, UInt64.add_assoc, UInt64.add_comm 1]
  rfl

end Session

namespace Run

variable {σ : Type} {h : Host σ}

def countsTimers (r : Run σ) : Bool :=
  r.barrier.isNone && r.timer.due r.now

def ticks (h : Host σ) (n : Nat) (r : Run σ) : Nat :=
  (r.passes h n).countP countsTimers

structure Undisturbed (r : Run σ) : Prop extends r.Prompt where
  calm : r.session.interrupted = false
  queue : r.session.queue = []
  breakpoints : r.session.breakpoints = []
  broken : r.board.broken = false
  shutdown : r.board.shutdown = false

theorem Undisturbed.barrier {r : Run σ} (hr : r.Undisturbed) : r.barrier = none :=
  barrier_eq_none_iff.2 ⟨hr.calm, hr.broken, hr.shutdown⟩

theorem Undisturbed.not_atBreakpoint {r : Run σ} (hr : r.Undisturbed) : ¬r.AtBreakpoint := by
  rintro ⟨_, hmem⟩
  rw [hr.breakpoints] at hmem
  exact List.not_mem_nil hmem

theorem Undisturbed.countsTimers {r : Run σ} (hr : r.Undisturbed) : r.countsTimers = true := by
  rw [Run.countsTimers, hr.barrier, hr.timer]
  rfl

variable {r : Run (σ × Journal)}

theorem Undisturbed.ready (hr : r.Undisturbed)
    (hsilent : ∀ own screen, (h.refresh own screen).2 = []) :
    (r.ready h.journaled).Undisturbed ∧ (r.ready h.journaled).session = r.session ∧
      (r.ready h.journaled).board = r.board.tick.1 := by
  have hboard : (r.ready h.journaled).board = r.board.tick.1 := by
    rw [hr.toPrompt.board_ready, hr.queue]
    rfl
  have hsession : (r.ready h.journaled).session = r.session := by
    rw [hr.toPrompt.ready_eq]
    simp only [Host.refresh_journaled, hsilent, List.foldl_nil]
    rw [← hr.queue]
  refine ⟨⟨hr.toPrompt.ready _, ?_, ?_, ?_, ?_, ?_⟩, hsession, hboard⟩
  · rw [hsession, hr.calm]
  · rw [hsession, hr.queue]
  · rw [hsession, hr.breakpoints]
  · rw [hboard]
    exact hr.broken
  · rw [hboard]
    exact hr.shutdown

theorem Undisturbed.frames_attempt (hr : r.Undisturbed)
    (hboard : (r.ready h.journaled).board = r.board.tick.1) :
    ((r.ready h.journaled).attempt h.journaled).1.journal.frames =
      r.journal.frames ++ [r.board.tick.1.screen] := by
  rw [journal_attempt, hr.toPrompt.journal_ready, hboard]

theorem Undisturbed.pass_of_error {f : Fault} (hr : r.Undisturbed)
    (hsilent : ∀ own screen, (h.refresh own screen).2 = [])
    (hf : r.board.tick.1.step.outcome = .error f) :
    ∃ r', r.pass h.journaled = (r', some (.fault f)) ∧ r'.board = r.board.tick.1.step.board ∧
      r'.journal.frames = r.journal.frames ++ [r.board.tick.1.screen] ∧
      r'.session.steps = r.session.steps := by
  obtain ⟨hq, hsession, hboard⟩ := hr.ready hsilent
  have hframes := hr.frames_attempt hboard
  rw [← hboard] at hf
  have hattempt := attempt_eq h.journaled (r.ready h.journaled)
  rw [verdict_of_error hq.not_atBreakpoint hf] at hattempt
  rw [hattempt] at hframes
  refine ⟨_, (pass_of_clear hr.barrier).trans hattempt, ?_, hframes, ?_⟩
  · exact congrArg (fun b : Board => b.step.board) hboard
  · exact (congrArg Session.steps hsession :)

theorem Undisturbed.pass_of_ok {notice : Notice} (hr : r.Undisturbed)
    (hsilent : ∀ own screen, (h.refresh own screen).2 = [])
    (hok : r.board.tick.1.step.outcome = .ok notice) :
    ∃ r', r.pass h.journaled = (r', none) ∧ r'.Undisturbed ∧
      r'.board = r.board.tick.1.step.board ∧
      r'.journal.frames = r.journal.frames ++ [r.board.tick.1.screen] ∧
      r'.session.steps = r.session.steps + 1 := by
  obtain ⟨hq, hsession, hboard⟩ := hr.ready hsilent
  have hframes := hr.frames_attempt hboard
  rw [← hboard] at hok
  obtain ⟨hbroken, hshutdown⟩ := Board.flags_step_of_ok hok
  have hprompt := hq.toPrompt.attempt h.journaled
  have hattempt := attempt_eq h.journaled (r.ready h.journaled)
  rw [verdict_of_ok hq.not_atBreakpoint hok] at hattempt
  rw [hattempt] at hframes hprompt
  refine ⟨_, (pass_of_clear hr.barrier).trans hattempt,
    ⟨hprompt, hq.calm, hq.queue, hq.breakpoints, hbroken.trans hq.broken,
      hshutdown.trans hq.shutdown⟩, ?_, hframes, ?_⟩
  · exact congrArg (fun b : Board => b.step.board) hboard
  · exact congrArg (fun s : Session => s.steps + 1) hsession

theorem ticks_of_halt {r r' : Run σ} {halt : Halt} (hr : r.Undisturbed)
    (hp : r.pass h = (r', some halt)) (n : Nat) : r.ticks h (n + 1) = 1 := by
  rw [ticks, passes_of_halt hp, List.countP_singleton, if_pos hr.countsTimers]

theorem ticks_of_none {r r' : Run σ} (hr : r.Undisturbed) (hp : r.pass h = (r', none)) (n : Nat) :
    r.ticks h (n + 1) = r'.elapse.ticks h n + 1 := by
  rw [ticks, passes_of_none hp, List.countP_cons_of_pos hr.countsTimers, ticks]

theorem Undisturbed.proceed (hr : r.Undisturbed)
    (hsilent : ∀ own screen, (h.refresh own screen).2 = []) (n : Nat) :
    (r.proceed h.journaled n).1.board = (r.board.plainLoop n).board ∧
      (r.proceed h.journaled n).1.journal.frames =
        r.journal.frames ++ (r.board.plainLoop n).frames ∧
      (r.proceed h.journaled n).1.session.steps =
        r.session.steps + UInt64.ofNat (r.board.plainLoop n).steps ∧
      r.ticks h.journaled n = (r.board.plainLoop n).ticks ∧
      (r.proceed h.journaled n).2 = (r.board.plainLoop n).halt := by
  -- On the steps that are left. A step that succeeds leaves the run undisturbed.
  induction n generalizing r with
  | zero => exact ⟨rfl, (List.append_nil _).symm, (UInt64.add_zero _).symm, rfl, rfl⟩
  | succ n ih =>
    cases hout : r.board.tick.1.step.outcome with
    | error f =>
      obtain ⟨r', hp, hboard, hframes, hsteps⟩ := hr.pass_of_error hsilent hout
      rw [proceed_of_halt hp, Board.plainLoop_of_error hout, ticks_of_halt hr hp]
      exact ⟨hboard, hframes, hsteps.trans (UInt64.add_zero _).symm, rfl, rfl⟩
    | ok notice =>
      obtain ⟨r', hp, hr', hboard, hframes, hsteps⟩ := hr.pass_of_ok hsilent hout
      have helapse := hr'.toPrompt.elapse_eq
      obtain ⟨iboard, iframes, isteps, iticks, ihalt⟩ := ih hr'
      rw [hboard] at iboard iframes isteps iticks ihalt
      rw [proceed_of_none hp, Board.plainLoop_of_ok hout, ticks_of_none hr hp, helapse]
      refine ⟨iboard, ?_, ?_, congrArg (· + 1) iticks, ihalt⟩
      · rw [iframes, hframes, List.append_assoc, List.singleton_append]
      · rw [isteps, hsteps]
        exact (Session.count_succ _ _).symm

end Run

namespace Session

variable {σ : Type}

theorem allowance_of_room {s : Session} {limit : UInt64} (hlimit : s.pace.limit = some limit)
    (hpos : 1 ≤ limit.toNat) (hroom : s.steps.toNat + limit.toNat < UInt64.size) :
    s.allowance = limit.toNat := by
  have hone : (s.steps + 1).toNat = s.steps.toNat + 1 := toNat_count (n := 1) (by omega)
  have hless : (limit - 1).toNat = limit.toNat - 1 :=
    UInt64.toNat_sub_of_le _ _ (UInt64.le_iff_toNat_le.2 hpos)
  rw [allowance, hlimit]
  simp only [UInt64.le_iff_toNat_le, hone, toNat_goal hroom, hless]
  split <;> omega

theorem undisturbed_launch (h : Host σ) {s : Session} (hpace : s.pace.Unthrottled)
    (hcalm : s.interrupted = false) (hqueue : s.queue = []) (hpoints : s.breakpoints = [])
    {b : Board} (hbroken : b.broken = false) (hshutdown : b.shutdown = false) (own : σ) :
    (s.launch h b own).Undisturbed :=
  ⟨(Run.prompt_start hpace b own).of_eq rfl rfl rfl rfl, hcalm, hqueue, hpoints, hbroken,
    hshutdown⟩

theorem run_eq_plainLoop (h : Host σ) (hsilent : ∀ own screen, (h.refresh own screen).2 = [])
    {s : Session} (hpace : s.pace.Unthrottled) {limit : UInt64}
    (hlimit : s.pace.limit = some limit) (hpos : 1 ≤ limit.toNat)
    (hroom : s.steps.toNat + limit.toNat < UInt64.size) (hcalm : s.interrupted = false)
    (hqueue : s.queue = []) (hpoints : s.breakpoints = []) {b : Board}
    (hbroken : b.broken = false) (hshutdown : b.shutdown = false) (own : σ) :
    let ended := s.run h.journaled b (own, {})
    let loop := b.plainLoop limit.toNat
    (ended.1.forget, ended.2) = s.run h b own ∧
      ended.1.board = loop.board ∧ ended.1.journal.frames = loop.frames ∧
      ended.1.session.steps.toNat = s.steps.toNat + loop.steps ∧
      (s.launch h.journaled b (own, {})).ticks h.journaled s.allowance = loop.ticks ∧
      loop.frames.length = loop.ticks ∧
      match loop.fault with
      | some f => ended.2 = .fault f ∧ loop.steps < limit.toNat ∧ loop.ticks = loop.steps + 1
      | none => ended.2 = .stepLimit ∧ loop.steps = limit.toNat ∧ loop.ticks = limit.toNat := by
  intro ended loop
  have hforget := forget_run h s b own {}
  have hrun := undisturbed_launch h.journaled hpace hcalm hqueue hpoints hbroken hshutdown
    (own, ({} : Journal))
  have hallow := allowance_of_room hlimit hpos hroom
  have hended : ended = (s.launch h.journaled b (own, {})).proceed h.journaled limit.toNat := by
    rw [← hallow]
    rfl
  obtain ⟨hboard, hframes, hsteps, hticks, hhalt⟩ := hrun.proceed hsilent limit.toNat
  obtain ⟨hlength, hcounts⟩ := b.plainLoop_counts limit.toNat
  rw [← hended] at hboard hframes hsteps hhalt
  rw [hallow]
  have hgrown : ended.1.session.steps.toNat = s.steps.toNat + loop.steps := by
    have hle : loop.steps ≤ limit.toNat := b.plainLoop_steps_le limit.toNat
    have hgrowth : s.steps.toNat + loop.steps < UInt64.size := by omega
    rw [hsteps]
    exact toNat_count hgrowth
  refine ⟨Prod.ext hforget.1 hforget.2, hboard, hframes, hgrown, hticks, hlength, ?_⟩
  have hend : ended.2 = loop.halt := hhalt
  cases hf : loop.fault with
  | some f =>
    rw [hf] at hcounts
    exact ⟨by rw [hend, Rounds.halt, hf], hcounts⟩
  | none =>
    rw [hf] at hcounts
    exact ⟨by rw [hend, Rounds.halt, hf], hcounts⟩

theorem run_eq_plainLoop_undecodable :
    let s : Session := { pace := .unthrottledTo (some 3) }
    let b := Board.loaded [0x60, 0x05, 0x51, 0x21]
    let ended := s.run (Host.calling fun own _ => (own, [])).journaled b ((), {})
    (s.pace.limit = some 3 ∧ s.steps.toNat + 3 < UInt64.size ∧ s.interrupted = false ∧
      s.queue = [] ∧ s.breakpoints = [] ∧ b.broken = false ∧ b.shutdown = false) ∧
      ended.2 = .fault (.undecodable 0x5121) ∧ ended.1.session.steps.toNat = 1 ∧
      ended.1.journal.frames.length = 2 ∧ ended.1.board = (b.plainLoop 3).board := by
  intro s b ended
  obtain ⟨hfault, hsteps⟩ : (b.plainLoop 3).fault = some (.undecodable 0x5121) ∧
      (b.plainLoop 3).steps = 1 := by
    decide +kernel
  obtain ⟨_, hboard, hframes, hgrown, _, hlength, hhalt⟩ :=
    run_eq_plainLoop (Host.calling fun own _ => (own, [])) (fun _ _ => rfl) (s := s)
      (Pace.unthrottled_unthrottledTo _) (rfl : s.pace.limit = some 3) (by decide) (by decide)
      rfl rfl rfl (b := b) rfl rfl ()
  rw [show (3 : UInt64).toNat = 3 from rfl] at *
  rw [hfault, hsteps] at hhalt
  obtain ⟨hend, _, hticks⟩ := hhalt
  refine ⟨⟨rfl, by decide, rfl, rfl, rfl, rfl, rfl⟩, hend, hgrown.trans ?_, ?_, hboard⟩
  · rw [hsteps]
    rfl
  · exact (congrArg List.length hframes).trans (hlength.trans hticks)

end Session

end ChipEight
