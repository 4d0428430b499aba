import ChipEight.Proofs.Session.PlainLoop

namespace ChipEight

namespace Session

variable {σ : Type}

def limitedTo (s : Session) (limit : UInt64) : Session :=
  { s with pace := { s.pace with limit := some limit } }

@[simp]
theorem steps_limitedTo (s : Session) (limit : UInt64) : (s.limitedTo limit).steps = s.steps := rfl

def runUpTo (h : Host σ) : Nat → Session → Board → σ → Run σ × Halt
  | 0, s, b, own => (s.start b own, .stepLimit)
  | m + 1, s, b, own =>
    match s.run h b own with
    | (r, .stepLimit) => runUpTo h m r.session r.board r.surroundings
    | ended => ended

end Session

namespace Run

variable {σ : Type} {h : Host σ} {r : Run σ}

theorem proceed_add (m n : Nat) (r : Run σ) :
    r.proceed h (m + n) =
      match r.proceed h m with
      | (r', .stepLimit) => r'.proceed h n
      | ended => ended := by
  induction m generalizing r with
  | zero => rw [Nat.zero_add, proceed]
  | succ m ih =>
    rw [Nat.add_right_comm]
    rcases pass_result h r with ⟨r', halt, hp, hne⟩ | ⟨r', hp⟩
    · rw [proceed_of_halt hp, proceed_of_halt hp]
      split
      · next heq => exact absurd (congrArg Prod.snd heq) hne
      · rfl
    · rw [proceed_of_none hp, proceed_of_none hp, ih]

theorem session_pass_of_none {r' : Run σ} (hp : r.pass h = (r', none)) :
    r'.session.pace = r.session.pace ∧ r'.session.steps = r.session.steps + 1 := by
  have hclear : r.barrier = none := by
    cases hb : r.barrier with
    | none => rfl
    | some halt =>
      rw [pass_of_barrier hb] at hp
      cases hp
  rw [pass_of_clear hclear] at hp
  obtain ⟨hpace, _, _, hsteps⟩ := session_ready_kept h r
  rw [attempt_eq] at hp
  obtain ⟨rfl, hnone⟩ := Prod.mk.inj hp
  rcases (r.ready h).verdict_cases with ⟨_, hv⟩ | ⟨_, f, _, hv⟩ | ⟨hb, ⟨notice, hok⟩, _⟩
  · cases hv.symm.trans hnone
  · cases hv.symm.trans hnone
  · refine ⟨hpace, ?_⟩
    rw [verdict_of_ok hb hok]
    exact congrArg (· + 1) hsteps

theorem session_of_stepLimit {r' : Run σ} {n : Nat} (hend : r.proceed h n = (r', .stepLimit)) :
    r'.session.pace = r.session.pace ∧ r'.session.steps = r.session.steps + UInt64.ofNat n := by
  induction n generalizing r with
  | zero =>
    cases hend
    exact ⟨rfl, (UInt64.add_zero _).symm⟩
  | succ n ih =>
    rcases pass_result h r with ⟨q, halt, hp, hne⟩ | ⟨q, hp⟩
    · rw [proceed_of_halt hp] at hend
      cases hend
      exact absurd rfl hne
    · rw [proceed_of_none hp] at hend
      obtain ⟨hpace, hsteps⟩ := ih hend
      obtain ⟨hpace', hsteps'⟩ := session_pass_of_none hp
      refine ⟨hpace.trans hpace', hsteps.trans ?_⟩
      change q.session.steps + UInt64.ofNat n = _
      rw [hsteps', Session.count_succ]

def limitedTo (r : Run σ) (limit : UInt64) : Run σ :=
  { r with session := r.session.limitedTo limit }

theorem ready_limitedTo (h : Host σ) (r : Run σ) (limit : UInt64) :
    (r.limitedTo limit).ready h = (r.ready h).limitedTo limit := by
  have hdelivered : (r.limitedTo limit).deliverAll h = (r.deliverAll h).limitedTo limit := by
    rw [deliverAll_eq, deliverAll_eq]
    rfl
  have hcounted (q : Run σ) :
      (q.limitedTo limit).countTimers h = (q.countTimers h).limitedTo limit := by
    by_cases hdue : q.timer.due q.now = true <;>
      simp [countTimers, limitedTo, report, hdue]
  have hshown (q : Run σ) : (q.limitedTo limit).present h = (q.present h).limitedTo limit := by
    by_cases hdue : q.display.due q.now = true <;>
      simp [present, limitedTo, Session.limitedTo, Session.foldl_heed, hdue]
  rw [ready, hdelivered, hcounted, hshown, ready]

theorem attempt_limitedTo (h : Host σ) (r : Run σ) (limit : UInt64) :
    (r.limitedTo limit).attempt h = ((r.attempt h).1.limitedTo limit, (r.attempt h).2) := by
  rw [attempt_eq, attempt_eq]
  rfl

theorem pass_limitedTo (h : Host σ) (r : Run σ) (limit : UInt64) :
    (r.limitedTo limit).pass h = ((r.pass h).1.limitedTo limit, (r.pass h).2) := by
  cases hb : r.barrier with
  | some halt =>
    have hb' : (r.limitedTo limit).barrier = some halt := hb
    have hstopped : (r.limitedTo limit).stopped = r.stopped.limitedTo limit := by
      unfold stopped
      split <;> simp_all [limitedTo, Session.limitedTo]
    rw [pass_of_barrier hb, pass_of_barrier hb', hstopped]
  | none =>
    have hb' : (r.limitedTo limit).barrier = none := hb
    rw [pass_of_clear hb, pass_of_clear hb', ready_limitedTo, attempt_limitedTo]

theorem proceed_limitedTo (h : Host σ) (n : Nat) (r : Run σ) (limit : UInt64) :
    (r.limitedTo limit).proceed h n =
      ((r.proceed h n).1.limitedTo limit, (r.proceed h n).2) := by
  induction n generalizing r with
  | zero => rfl
  | succ n ih =>
    have hpass := pass_limitedTo h r limit
    rcases pass_result h r with ⟨r', halt, hp, _⟩ | ⟨r', hp⟩
    · rw [hp] at hpass
      rw [proceed_of_halt hp, proceed_of_halt hpass]
    · rw [hp] at hpass
      rw [proceed_of_none hp, proceed_of_none hpass]
      exact ih r'.elapse

end Run

namespace Session

variable {σ : Type} {h : Host σ}

theorem launch_of_deaf (hdeaf : ∀ own pc, h.hear own (.running pc) = own) (s : Session) (b : Board)
    (own : σ) : s.launch h b own = s.start b own := by
  simp [launch, Run.report, start, hdeaf]

theorem runUpTo_eq_proceed (hdeaf : ∀ own pc, h.hear own (.running pc) = own) {s : Session}
    (hpace : s.pace.Unthrottled) {limit : UInt64} (hlimit : s.pace.limit = some limit)
    (hpos : 1 ≤ limit.toNat) {m : Nat} (hroom : s.steps.toNat + m * limit.toNat < UInt64.size)
    (b : Board) (own : σ) :
    s.runUpTo h m b own = (s.start b own).proceed h (m * limit.toNat) := by
  induction m generalizing s b own with
  | zero =>
    rw [Nat.zero_mul]
    rfl
  | succ m ih =>
    have hsplit : (m + 1) * limit.toNat = limit.toNat + m * limit.toNat := by
      rw [Nat.succ_mul, Nat.add_comm]
    rw [hsplit] at hroom
    have hallow : s.allowance = limit.toNat := allowance_of_room hlimit hpos (by omega)
    have hrun : s.run h b own = (s.start b own).proceed h limit.toNat := by
      rw [run_eq, launch_of_deaf hdeaf, hallow]
    rw [hsplit, Run.proceed_add, runUpTo, hrun]
    have hprompt := ((Run.prompt_start hpace b own).proceed h limit.toNat).2
    rcases hend : (s.start b own).proceed h limit.toNat with ⟨r, halt⟩
    rw [hend] at hprompt
    cases halt with
    | stepLimit =>
      obtain ⟨hkept, hsteps⟩ : r.session.pace = s.pace ∧
          r.session.steps = s.steps + UInt64.ofNat limit.toNat := Run.session_of_stepLimit hend
      have hgrown : r.session.steps.toNat = s.steps.toNat + limit.toNat := by
        rw [hsteps]
        exact toNat_count (by omega)
      have hnext : r.session.steps.toNat + m * limit.toNat < UInt64.size := by omega
      have hlimit' : r.session.pace.limit = some limit := (congrArg Pace.limit hkept).trans hlimit
      have hrest := ih hprompt.pace hlimit' hnext r.board r.surroundings
      exact hrest.trans (by rw [hprompt.start_eq])
    | _ => rfl

theorem runUpTo_eq_run (refresh : σ → Screen → σ × List Signal) {s : Session}
    (hpace : s.pace.Unthrottled) {m : Nat} {limit whole : UInt64} (hm : 1 ≤ m)
    (hlimit : 1 ≤ limit.toNat) (hwhole : whole.toNat = m * limit.toNat)
    (hroom : s.steps.toNat + m * limit.toNat < UInt64.size) (b : Board) (own : σ) :
    let h := (Host.calling refresh).journaled
    let many := (s.limitedTo limit).runUpTo h m b (own, {})
    let one := (s.limitedTo whole).run h b (own, {})
    many.2 = one.2 ∧ many.1.board = one.1.board ∧
      many.1.journal.frames = one.1.journal.frames ∧ many.1.surroundings = one.1.surroundings ∧
      many.1.session = one.1.session.limitedTo limit := by
  intro h many one
  have hdeaf (own : σ × Journal) (pc : UInt16) : h.hear own (.running pc) = own :=
    Prod.ext rfl (by simp [h, Host.journaled, Event.keyEvent?])
  have hpos : 1 ≤ whole.toNat := by
    rw [hwhole]
    exact Nat.mul_pos hm hlimit
  have hmany : many = ((s.limitedTo limit).start b (own, {})).proceed h (m * limit.toNat) :=
    runUpTo_eq_proceed hdeaf (s := s.limitedTo limit)
      ⟨hpace.cpu, hpace.timer, hpace.refresh⟩ rfl hlimit hroom b (own, {})
  have hone : one = ((s.limitedTo whole).start b (own, {})).proceed h (m * limit.toNat) := by
    have hallow : (s.limitedTo whole).allowance = whole.toNat :=
      allowance_of_room rfl hpos (hwhole ▸ hroom)
    rw [← hwhole, ← hallow, ← launch_of_deaf hdeaf]
    rfl
  have hlimited := Run.proceed_limitedTo h (m * limit.toNat)
    ((s.limitedTo whole).start b (own, ({} : Journal))) limit
  have hstart : ((s.limitedTo whole).start b (own, ({} : Journal))).limitedTo limit =
      (s.limitedTo limit).start b (own, {}) := rfl
  rw [hstart, ← hmany, ← hone] at hlimited
  rw [hlimited]
  exact ⟨rfl, rfl, rfl, rfl, rfl⟩

theorem runUpTo_eq_run_interrupted :
    let s : Session := { pace := .unthrottledTo none }
    let b := Board.loaded [0x12, 0x00]
    let refresh (n : Nat) (_ : Screen) : Nat × List Signal :=
      (n + 1, if n = 2 then [.interrupt] else [])
    let many := (s.limitedTo 2).runUpTo (Host.calling refresh).journaled 2 b (0, {})
    (s.pace.Unthrottled ∧ (4 : UInt64).toNat = 2 * (2 : UInt64).toNat ∧
      s.steps.toNat + 2 * (2 : UInt64).toNat < UInt64.size) ∧
      many.2 = .interrupted ∧ many.1.session.steps = 3 ∧ many.1.journal.frames.length = 3 := by
  intro s b refresh many
  obtain ⟨hhalt, -, hframes, -, hsession⟩ :=
    runUpTo_eq_run refresh (s := s) (Pace.unthrottled_unthrottledTo none) (by decide : 1 ≤ 2)
      (by decide : 1 ≤ (2 : UInt64).toNat) (rfl : (4 : UInt64).toNat = 2 * (2 : UInt64).toNat)
      (by decide) b 0
  have hone : ((s.limitedTo 4).run (Host.calling refresh).journaled b (0, {})).2 = .interrupted ∧
      ((s.limitedTo 4).run (Host.calling refresh).journaled b (0, {})).1.session.steps = 3 ∧
      ((s.limitedTo 4).run (Host.calling refresh).journaled b
        (0, {})).1.journal.frames.length = 3 := by
    decide +kernel
  refine ⟨⟨Pace.unthrottled_unthrottledTo none, rfl, by decide⟩, ?_⟩
  simp only [many]
  rw [hhalt, hframes, hsession, steps_limitedTo]
  exact hone

end Session

end ChipEight
