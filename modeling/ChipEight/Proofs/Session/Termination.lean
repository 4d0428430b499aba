import ChipEight.Proofs.Session.StepLimit

namespace ChipEight

namespace Session

variable {goal steps : UInt64} {n : Nat}

def countsTo (goal steps : UInt64) : Set Nat :=
  {n | 0 < n ∧ goal ≤ steps + UInt64.ofNat n}

theorem eq_one_of_reached (hn : IsLeast (countsTo goal steps) n) (hgoal : goal ≤ steps + 1) :
    n = 1 :=
  hn.unique ⟨⟨Nat.one_pos, hgoal⟩, fun _ hm => hm.1⟩

theorem isLeast_of_ahead (hn : IsLeast (countsTo goal steps) n) (hgoal : steps + 1 < goal) :
    ∃ m, n = m + 1 ∧ IsLeast (countsTo goal (steps + 1)) m := by
  obtain ⟨⟨hpos, hreached⟩, hleast⟩ := hn
  obtain ⟨m, rfl⟩ := Nat.exists_eq_succ_of_ne_zero (Nat.ne_of_gt hpos)
  refine ⟨m, rfl, ⟨?_, ?_⟩, ?_⟩
  · rcases Nat.eq_zero_or_pos m with rfl | hm
    · exact absurd hreached (UInt64.not_le.2 hgoal)
    · exact hm
  · rwa [← count_succ]
  · rintro k ⟨hk, hkreached⟩
    rw [← count_succ] at hkreached
    exact Nat.le_of_succ_le_succ (hleast ⟨Nat.succ_pos k, hkreached⟩)

end Session

namespace Run

variable {σ : Type} {h : Host σ} {goal : UInt64} {r r' : Run σ} {halt : Halt}
  {turns : List (Run σ)} {ended : Run σ × Halt}

def turn (h : Host σ) (goal : UInt64) (r : Run σ) : Run σ × Option Halt :=
  match r.pass h with
  | (stopped, some halt) => (stopped, some halt)
  | (stepped, none) => (stepped, if goal ≤ stepped.session.steps then some .stepLimit else none)

inductive Returns (h : Host σ) (goal : UInt64) : Run σ → List (Run σ) → Run σ × Halt → Prop where
  | stop {r r' : Run σ} {halt : Halt} (ht : r.turn h goal = (r', some halt)) :
      Returns h goal r [r] (r', halt)
  | again {r r' : Run σ} {turns : List (Run σ)} {ended : Run σ × Halt}
      (ht : r.turn h goal = (r', none)) (hrest : Returns h goal r' turns ended) :
      Returns h goal r (r :: turns) ended

theorem turn_of_halt (hp : r.pass h = (r', some halt)) : r.turn h goal = (r', some halt) := by
  rw [turn, hp]

theorem turn_of_none (hp : r.pass h = (r', none)) :
    r.turn h goal = (r', if goal ≤ r.session.steps + 1 then some .stepLimit else none) := by
  rw [turn, hp, ← (session_pass_of_none hp).2]

theorem turn_eq_some (ht : r.turn h goal = (r', some halt)) :
    r.pass h = (r', some halt) ∨
      r.pass h = (r', none) ∧ goal ≤ r.session.steps + 1 ∧ halt = .stepLimit := by
  rcases pass_result h r with ⟨q, other, hp, _⟩ | ⟨q, hp⟩
  · cases (turn_of_halt hp).symm.trans ht
    exact .inl hp
  · have hq := (turn_of_none hp).symm.trans ht
    split at hq
    · next hgoal =>
      cases hq
      exact .inr ⟨hp, hgoal, rfl⟩
    · cases hq

theorem turn_eq_none (ht : r.turn h goal = (r', none)) :
    r.pass h = (r', none) ∧ r.session.steps + 1 < goal := by
  rcases pass_result h r with ⟨q, other, hp, _⟩ | ⟨q, hp⟩
  · cases (turn_of_halt hp).symm.trans ht
  · have hq := (turn_of_none hp).symm.trans ht
    split at hq
    · cases hq
    · next hgoal =>
      cases hq
      exact ⟨hp, UInt64.not_le.1 hgoal⟩

def distance (goal : UInt64) (r : Run σ) : Nat :=
  goal.toNat - (r.session.steps + 1).toNat

theorem distance_of_turn (ht : r.turn h goal = (r', none)) :
    r'.distance goal < r.distance goal := by
  obtain ⟨hp, hgoal⟩ := turn_eq_none ht
  have hlt : (r.session.steps + 1).toNat < goal.toNat := UInt64.lt_iff_toNat_lt.1 hgoal
  have hnext : (r.session.steps + 1 + 1).toNat = (r.session.steps + 1).toNat + 1 :=
    Session.toNat_count (n := 1) (Nat.lt_of_le_of_lt hlt goal.toNat_lt)
  rw [distance, distance, (session_pass_of_none hp).2, hnext]
  omega

theorem exists_returns (h : Host σ) (goal : UInt64) (r : Run σ) :
    ∃ turns ended, Returns h goal r turns ended ∧ turns.length ≤ r.distance goal + 1 := by
  induction hd : r.distance goal using Nat.strong_induction_on generalizing r with
  | _ d ih =>
    subst hd
    rcases ht : r.turn h goal with ⟨r', _ | halt⟩
    · have hcloser := distance_of_turn ht
      obtain ⟨turns, ended, hrest, hlength⟩ := ih _ hcloser r' rfl
      refine ⟨r :: turns, ended, .again ht hrest, ?_⟩
      rw [List.length_cons]
      omega
    · exact ⟨[r], (r', halt), .stop ht, Nat.succ_le_succ (Nat.zero_le _)⟩

theorem Returns.proceed_eq {n : Nat} (hreturns : Returns h goal r turns ended) (hr : r.Prompt)
    (hn : IsLeast (Session.countsTo goal r.session.steps) n) : r.proceed h n = ended := by
  induction hreturns generalizing n with
  | @stop r r' halt ht =>
    rcases turn_eq_some ht with hp | ⟨hp, hgoal, rfl⟩
    · obtain ⟨n, rfl⟩ := Nat.exists_eq_succ_of_ne_zero (Nat.ne_of_gt hn.1.1)
      exact proceed_of_halt hp n
    · have hprompt := hr.pass h
      rw [hp] at hprompt
      rw [Session.eq_one_of_reached hn hgoal, proceed_of_none hp, proceed, hprompt.elapse_eq]
  | @again r r' turns ended ht hrest ih =>
    obtain ⟨hp, hgoal⟩ := turn_eq_none ht
    have hprompt := hr.pass h
    rw [hp] at hprompt
    obtain ⟨m, rfl, hm⟩ := Session.isLeast_of_ahead hn hgoal
    rw [← (session_pass_of_none hp).2] at hm
    rw [proceed_of_none hp, hprompt.elapse_eq]
    exact ih hprompt hm

theorem toNat_steps_of_none (hp : r.pass h = (r', none))
    (hroom : r.session.steps.toNat + 1 < UInt64.size) :
    r'.session.steps.toNat = r.session.steps.toNat + 1 := by
  rw [(session_pass_of_none hp).2]
  exact Session.toNat_count (n := 1) hroom

theorem Returns.steps_bounds (hreturns : Returns h goal r turns ended)
    (hroom : r.session.steps.toNat + turns.length < UInt64.size) :
    ∀ q ∈ ended.1 :: turns, r.session.steps.toNat ≤ q.session.steps.toNat ∧
      q.session.steps.toNat ≤ r.session.steps.toNat + turns.length := by
  induction hreturns with
  | @stop r r' halt ht =>
    rw [List.length_singleton] at hroom ⊢
    refine List.forall_mem_cons.2
      ⟨?_, List.forall_mem_singleton.2 ⟨Nat.le_refl _, Nat.le_succ _⟩⟩
    rcases turn_eq_some ht with hp | ⟨hp, _, _⟩
    · rw [steps_pass_of_halt hp]
      exact ⟨Nat.le_refl _, Nat.le_succ _⟩
    · rw [toNat_steps_of_none hp hroom]
      exact ⟨Nat.le_succ _, Nat.le_refl _⟩
  | @again r r' turns ended ht hrest ih =>
    rw [List.length_cons] at hroom ⊢
    rw [toNat_steps_of_none (turn_eq_none ht).1 (by omega)] at ih
    obtain ⟨hended, hturns⟩ := List.forall_mem_cons.1 (ih (by omega))
    refine List.forall_mem_cons.2 ⟨by omega, List.forall_mem_cons.2 ⟨by omega, fun q hq => ?_⟩⟩
    have := hturns q hq
    omega

inductive Ends (h : Host σ) : Run σ → Nat → Run σ × Halt → Prop where
  | stop {r r' : Run σ} {halt : Halt} (hp : r.pass h = (r', some halt)) : Ends h r 0 (r', halt)
  | again {r r' : Run σ} {steps : Nat} {ended : Run σ × Halt} (hp : r.pass h = (r', none))
      (hrest : Ends h r'.elapse steps ended) : Ends h r (steps + 1) ended

theorem ends_iff_proceed {n : Nat} :
    (∃ steps < n, Ends h r steps ended) ↔ r.proceed h n = ended ∧ ended.2 ≠ .stepLimit := by
  induction n generalizing r with
  | zero =>
    refine ⟨fun ⟨_, hlt, _⟩ => absurd hlt (Nat.not_lt_zero _), ?_⟩
    rintro ⟨rfl, hne⟩
    exact absurd rfl hne
  | succ n ih =>
    rcases pass_result h r with ⟨r', halt, hp, hne⟩ | ⟨r', hp⟩
    · rw [proceed_of_halt hp]
      constructor
      · rintro ⟨_, _, hends⟩
        cases hends with
        | stop hp' =>
          cases hp.symm.trans hp'
          exact ⟨rfl, hne⟩
        | again hp' => cases hp.symm.trans hp'
      · rintro ⟨rfl, _⟩
        exact ⟨0, Nat.succ_pos n, .stop hp⟩
    · rw [proceed_of_none hp, ← ih]
      constructor
      · rintro ⟨_, hlt, hends⟩
        cases hends with
        | stop hp' => cases hp.symm.trans hp'
        | again hp' hrest =>
          cases hp.symm.trans hp'
          exact ⟨_, Nat.lt_of_succ_lt_succ hlt, hrest⟩
      · rintro ⟨steps, hlt, hrest⟩
        exact ⟨steps + 1, Nat.succ_lt_succ hlt, .again hp hrest⟩

end Run

namespace Session

variable {σ : Type} {limit : UInt64}

theorem distance_launch (h : Host σ) (s : Session) (b : Board) (own : σ)
    (hroom : s.steps.toNat + max 1 limit.toNat < UInt64.size) :
    (s.launch h b own).distance (s.steps + limit) + 1 = max 1 limit.toNat := by
  have hone : (s.steps + 1).toNat = s.steps.toNat + 1 := toNat_count (n := 1) (by omega)
  have hgoal : (s.steps + limit).toNat = s.steps.toNat + limit.toNat := toNat_goal (by omega)
  change (s.steps + limit).toNat - (s.steps + 1).toNat + 1 = max 1 limit.toNat
  omega

/-- A limit of zero lets one step pass, so that even then the counter needs room for one. -/
theorem limited_run_returns (h : Host σ) {s : Session} (hpace : s.pace.Unthrottled)
    (hlimit : s.pace.limit = some limit) (b : Board) (own : σ) :
    let most := max 1 limit.toNat
    let ended := s.run h b own
    ∃ turns, Run.Returns h (s.steps + limit) (s.launch h b own) turns ended ∧
      (s.steps.toNat + most < UInt64.size → turns.length ≤ most ∧
        ∀ r ∈ ended.1 :: turns, s.steps.toNat ≤ r.session.steps.toNat ∧
          r.session.steps.toNat ≤ s.steps.toNat + most) := by
  intro most ended
  have hprompt : (s.launch h b own).Prompt :=
    (Run.prompt_start hpace b own).of_eq rfl rfl rfl rfl
  obtain ⟨turns, ended', hreturns, hlength⟩ :=
    Run.exists_returns h (s.steps + limit) (s.launch h b own)
  obtain rfl : ended = ended' := hreturns.proceed_eq hprompt (isLeast_allowance hlimit)
  refine ⟨turns, hreturns, fun hroom => ?_⟩
  have hmost : turns.length ≤ most :=
    Nat.le_trans hlength (Nat.le_of_eq (distance_launch h s b own hroom))
  have hbounds := hreturns.steps_bounds (Nat.lt_of_le_of_lt (Nat.add_le_add_left hmost _) hroom)
  refine ⟨hmost, fun r hr => ?_⟩
  obtain ⟨hge, hle⟩ := hbounds r hr
  exact ⟨hge, Nat.le_trans hle (Nat.add_le_add_left hmost _)⟩

theorem limited_run_returns_waiting :
    let s : Session := { pace := .unthrottledTo (some 5) }
    let b := Board.loaded [0xF1, 0x0A]
    let h := Host.silent
    (s.pace.Unthrottled ∧ s.pace.limit = some 5) ∧ (s.run h b ()).2 = .stepLimit ∧
      ∃ turns, Run.Returns h 5 (s.launch h b ()) turns (s.run h b ()) ∧ turns.length ≤ 5 := by
  intro s b h
  have hpace : s.pace.Unthrottled := Pace.unthrottled_unthrottledTo _
  obtain ⟨turns, hreturns, hmost⟩ := limited_run_returns h hpace rfl b ()
  exact ⟨⟨hpace, rfl⟩, by decide +kernel, turns, hreturns, (hmost (by decide)).1⟩

/-- Only a run that goes on until the step counter is used up stops at a limit that it does not
have. -/
theorem unlimited_run_ends (h : Host σ) {s : Session} (hlimit : s.pace.limit = none) (b : Board)
    (own : σ) (ended : Run σ × Halt) :
    (∃ steps < UInt64.size - 1, Run.Ends h (s.launch h b own) steps ended) ↔
      s.run h b own = ended ∧ ended.2 ≠ .stepLimit := by
  have hallow : s.allowance = UInt64.size - 1 := by rw [allowance, hlimit]
  rw [run_eq, hallow]
  exact Run.ends_iff_proceed

end Session

end ChipEight
