import ChipEight.Proofs.Session.Composition
import Mathlib.Order.Bounds.Basic

namespace ChipEight

namespace Run

variable {σ : Type} {h : Host σ} {r r' : Run σ}

def makesStep (h : Host σ) (r : Run σ) : Bool :=
  r.barrier.isNone && !decide (r.ready h).AtBreakpoint && (r.ready h).board.step.outcome.isOk

theorem makesStep_eq (h : Host σ) (r : Run σ) : r.makesStep h = (r.pass h).2.isNone := by
  cases hb : r.barrier with
  | some halt =>
    rw [pass_of_barrier hb, makesStep, hb]
    rfl
  | none =>
    rw [pass_of_clear hb, halt_attempt, makesStep, hb]
    rcases (r.ready h).verdict_cases with ⟨hat, hv⟩ | ⟨hat, f, hf, hv⟩ | ⟨hat, ⟨notice, hok⟩, hv⟩
    · simp [hat, hv]
    · simp [hf, hv, Except.isOk, Except.toBool]
    · simp [hat, hok, hv, Except.isOk, Except.toBool]

def stepsTaken (h : Host σ) (n : Nat) (r : Run σ) : Nat :=
  (r.passes h n).countP (makesStep h)

theorem stepsTaken_of_halt {halt : Halt} (hp : r.pass h = (r', some halt)) (n : Nat) :
    r.stepsTaken h (n + 1) = 0 := by
  have hidle : r.makesStep h = false := by
    rw [makesStep_eq, hp]
    rfl
  rw [stepsTaken, passes_of_halt hp, List.countP_singleton, hidle]
  rfl

theorem stepsTaken_of_none (hp : r.pass h = (r', none)) (n : Nat) :
    r.stepsTaken h (n + 1) = r'.elapse.stepsTaken h n + 1 := by
  have hmade : r.makesStep h = true := by
    rw [makesStep_eq, hp]
    rfl
  rw [stepsTaken, passes_of_none hp, List.countP_cons_of_pos hmade, stepsTaken]

theorem steps_pass_of_halt {halt : Halt} (hp : r.pass h = (r', some halt)) :
    r'.session.steps = r.session.steps := by
  cases hb : r.barrier with
  | some other =>
    rw [pass_of_barrier hb] at hp
    obtain ⟨rfl, _⟩ := Prod.mk.inj hp
    unfold stopped
    split <;> rfl
  | none =>
    obtain ⟨_, _, _, hsteps⟩ := session_ready_kept h r
    rw [pass_of_clear hb, attempt_eq] at hp
    obtain ⟨rfl, hhalt⟩ := Prod.mk.inj hp
    refine Eq.trans ?_ hsteps
    rcases (r.ready h).verdict_cases with ⟨hat, _⟩ | ⟨hat, f, hf, _⟩ | ⟨_, _, hv⟩
    · rw [verdict_of_breakpoint hat]
      rfl
    · rw [verdict_of_error hat hf]
      rfl
    · cases hv.symm.trans hhalt

theorem proceed_takes_steps (h : Host σ) (n : Nat) (r : Run σ) :
    r.stepsTaken h n ≤ n ∧ ((r.proceed h n).2 = .stepLimit ↔ r.stepsTaken h n = n) ∧
      (r.proceed h n).1.session.steps = r.session.steps + UInt64.ofNat (r.stepsTaken h n) := by
  -- On the steps that are left: a pass that does not stop the run takes one of them.
  induction n generalizing r with
  | zero => exact ⟨Nat.le_refl 0, iff_of_true rfl rfl, (UInt64.add_zero _).symm⟩
  | succ n ih =>
    rcases pass_result h r with ⟨q, halt, hp, hne⟩ | ⟨q, hp⟩
    · rw [stepsTaken_of_halt hp, proceed_of_halt hp]
      refine ⟨Nat.zero_le _, iff_of_false hne (Nat.succ_ne_zero n).symm, ?_⟩
      exact (steps_pass_of_halt hp).trans (UInt64.add_zero _).symm
    · obtain ⟨hle, hhalt, hsteps⟩ := ih q.elapse
      have hcount : q.elapse.session.steps = r.session.steps + 1 := (session_pass_of_none hp).2
      rw [stepsTaken_of_none hp, proceed_of_none hp]
      refine ⟨Nat.succ_le_succ hle, hhalt.trans Nat.succ_inj.symm, ?_⟩
      rw [hsteps, hcount, Session.count_succ]

end Run

namespace Board

def parked : Board :=
  { loaded [] with cpu := { (loaded []).cpu with mode := .awaitingKey 0 } }

theorem fault_plainLoop_of_awaiting {b : Board} {x : RegisterName}
    (hwait : b.cpu.mode = .awaitingKey x) (n : Nat) : (b.plainLoop n).fault = none := by
  induction n generalizing b with
  | zero => rfl
  | succ n ih =>
    have hticked : b.tick.1.cpu.mode = .awaitingKey x := hwait
    have hparked : b.tick.1.step = { board := b.tick.1, outcome := .ok .wait } :=
      step_of_awaiting hticked
    have hok : b.tick.1.step.outcome = .ok .wait := by rw [hparked]
    rw [plainLoop_of_ok hok, hparked]
    exact ih hticked

end Board

namespace Session

variable {σ : Type}

def atLimit (limit steps : UInt64) : Set Nat :=
  {n | 0 < n ∧ steps + limit ≤ steps + UInt64.ofNat n}

theorem isLeast_allowance {s : Session} {limit : UInt64} (hlimit : s.pace.limit = some limit) :
    IsLeast (atLimit limit s.steps) s.allowance := by
  have hfirst : s.steps + limit = s.steps + 1 + (limit - 1) := by
    rw [UInt64.add_assoc, UInt64.add_comm 1, UInt64.sub_add_cancel]
  rw [allowance, hlimit]
  dsimp only
  split
  · next hone => exact ⟨⟨Nat.one_pos, hone⟩, fun n hn => hn.1⟩
  · next hmore =>
    -- The limit lies ahead of the counter after the first step, which then reaches it unwrapped.
    refine ⟨⟨Nat.succ_pos _, ?_⟩, ?_⟩
    · rw [count_succ, UInt64.ofNat_toNat, hfirst]
      exact UInt64.le_refl _
    · rintro (_ | n) ⟨hpos, hreached⟩
      · cases hpos
      · rw [hfirst, count_succ, UInt64.le_iff_toNat_le, UInt64.toNat_add,
          UInt64.toNat_add (s.steps + 1), UInt64.toNat_ofNat'] at hreached
        rw [hfirst, UInt64.le_iff_toNat_le, UInt64.toNat_add] at hmore
        have hroom := (s.steps + 1).toNat_lt
        have hcount := (limit - 1).toNat_lt
        omega

theorem allowance_eq_limit_iff {s : Session} {limit : UInt64} (hlimit : s.pace.limit = some limit) :
    s.allowance = limit.toNat ↔
      limit ≠ 0 ∧ (s.steps.toNat + limit.toNat < UInt64.size ∨
        s.steps.toNat + 1 = UInt64.size) := by
  have hzero : limit = 0 ↔ limit.toNat = 0 := UInt64.toNat_inj.symm
  have hone : (1 : UInt64).toNat = 1 := rfl
  rw [allowance, hlimit, ne_eq, hzero]
  simp only [UInt64.le_iff_toNat_le, UInt64.toNat_add, UInt64.toNat_sub, hone]
  have hsteps := s.steps.toNat_lt
  have hbound := limit.toNat_lt
  simp only [UInt64.size]
  split <;> omega

def LimitsSteps (limit steps : UInt64) (most : Nat) : Prop :=
  ∀ {σ : Type} (h : Host σ) (s : Session) (b : Board) (own : σ), s.pace.Unthrottled →
    s.pace.limit = some limit → s.steps = steps →
    let taken := (s.launch h b own).stepsTaken h s.allowance
    taken ≤ most ∧ ((s.run h b own).2 = .stepLimit → taken = most)

def countingFrom (limit steps : UInt64) : Session :=
  { pace := .unthrottledTo (some limit), steps }

theorem isLeast_countingFrom (limit steps : UInt64) :
    IsLeast (atLimit limit steps) (countingFrom limit steps).allowance :=
  isLeast_allowance (s := countingFrom limit steps) rfl

theorem run_parked (limit steps : UInt64) :
    let s := countingFrom limit steps
    let h := Host.silent.journaled
    (s.run h .parked ((), {})).2 = .stepLimit ∧
      (s.launch h .parked ((), {})).stepsTaken h s.allowance = s.allowance := by
  intro s h
  have hrun : (s.launch h .parked ((), {})).Undisturbed :=
    undisturbed_launch h (Pace.unthrottled_unthrottledTo _) rfl rfl rfl rfl rfl ((), {})
  obtain ⟨_, _, _, _, hhalt⟩ := hrun.proceed (h := .silent) (fun _ _ => rfl) s.allowance
  have hend : (s.run h .parked ((), {})).2 = .stepLimit := by
    rw [run_eq, hhalt, Rounds.halt, Board.fault_plainLoop_of_awaiting rfl]
  obtain ⟨_, htaken, _⟩ := Run.proceed_takes_steps h s.allowance (s.launch h .parked ((), {}))
  exact ⟨hend, htaken.1 hend⟩

variable {limit steps : UInt64} {most : Nat}

theorem limitsSteps_of_isLeast (hmost : IsLeast (atLimit limit steps) most) :
    LimitsSteps limit steps most := by
  intro σ h s b own _ hlimit hsteps taken
  obtain rfl : s.allowance = most := by
    subst hsteps
    exact (isLeast_allowance hlimit).unique hmost
  obtain ⟨hle, htaken, _⟩ := (s.launch h b own).proceed_takes_steps h s.allowance
  exact ⟨hle, htaken.1⟩

theorem LimitsSteps.isLeast (hlimits : LimitsSteps limit steps most) :
    IsLeast (atLimit limit steps) most := by
  obtain ⟨hend, htaken⟩ := run_parked limit steps
  obtain ⟨_, hexact⟩ := hlimits _ (countingFrom limit steps) .parked _
    (Pace.unthrottled_unthrottledTo _) rfl rfl
  rw [← hexact hend, htaken]
  exact isLeast_countingFrom limit steps

theorem step_limit_kept_iff (limit steps : UInt64) :
    (∀ most, LimitsSteps limit steps most ↔ IsLeast (atLimit limit steps) most) ∧
    (LimitsSteps limit steps limit.toNat ↔
      limit ≠ 0 ∧ (steps.toNat + limit.toNat < UInt64.size ∨ steps.toNat + 1 = UInt64.size)) := by
  have hiff (most : Nat) : LimitsSteps limit steps most ↔ IsLeast (atLimit limit steps) most :=
    ⟨LimitsSteps.isLeast, limitsSteps_of_isLeast⟩
  have hleast := isLeast_countingFrom limit steps
  have hkept := allowance_eq_limit_iff (s := countingFrom limit steps) rfl
  refine ⟨hiff, (hiff _).trans ⟨fun hlimit => hkept.1 (hleast.unique hlimit), fun hlimit => ?_⟩⟩
  rw [← hkept.2 hlimit]
  exact hleast

theorem step_taken_at_limit_zero :
    let s : Session := { pace := .unthrottledTo (some 0) }
    let b := Board.loaded [0x12, 0x00]
    let h := Host.silent
    (s.run h b ()).2 = .stepLimit ∧ (s.launch h b ()).stepsTaken h s.allowance = 1 ∧
      ¬LimitsSteps 0 0 (0 : UInt64).toNat := by
  intro s b h
  have hrun : (s.run h b ()).2 = .stepLimit ∧
      (s.launch h b ()).stepsTaken h s.allowance = 1 := by
    decide +kernel
  refine ⟨hrun.1, hrun.2, fun hlimits => ?_⟩
  obtain ⟨hle, _⟩ := hlimits h s b () (Pace.unthrottled_unthrottledTo _) rfl rfl
  exact absurd (hrun.2 ▸ hle) (by decide)

end Session

end ChipEight
