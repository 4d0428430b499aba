import ChipEight.Proofs.Session.Console

namespace ChipEight

def Halt.resumption : Option Halt → Option UInt16
  | some (.breakpoint pc) => some pc
  | _ => none

theorem Halt.resumption_eq_some_iff {halt : Option Halt} {pc : UInt16} :
    resumption halt = some pc ↔ halt = some (.breakpoint pc) := by
  unfold resumption
  split
  · next pc' =>
    simp only [Option.some.injEq, breakpoint.injEq]
  · next hne =>
    refine ⟨nofun, ?_⟩
    rintro rfl
    exact absurd rfl (hne pc)

namespace Run

variable {σ : Type} {h : Host σ} {r q : Run σ} {pc : UInt16}

def HaltsAt (h : Host σ) (pc : UInt16) (q : Run σ) : Prop :=
  (q.attempt h).2 = some (.breakpoint pc)

instance (h : Host σ) (pc : UInt16) (q : Run σ) : Decidable (q.HaltsAt h pc) :=
  inferInstanceAs (Decidable (_ = _))

theorem haltsAt_iff : q.HaltsAt h pc ↔ q.AtBreakpoint ∧ pc = q.board.cpu.pc := by
  rw [HaltsAt, halt_attempt]
  rcases q.verdict_cases with ⟨hb, hv⟩ | ⟨hb, f, _, hv⟩ | ⟨hb, _, hv⟩
  · simp [hv, hb, eq_comm]
  · simp [hv, hb]
  · simp [hv, hb]

def reached (h : Host σ) (r : Run σ) : Option (Run σ) :=
  if r.barrier = none then some (r.ready h) else none

theorem reached_of_barrier {halt : Halt} (hb : r.barrier = some halt) : r.reached h = none :=
  if_neg (hb ▸ nofun)

theorem reached_of_clear (hc : r.barrier = none) : r.reached h = some (r.ready h) :=
  if_pos hc

def attempts (h : Host σ) (n : Nat) (r : Run σ) : List (Run σ) :=
  (r.passes h n).filterMap (reached h)

theorem attempts_of_halt {r' : Run σ} {halt : Halt} (hp : r.pass h = (r', some halt)) (n : Nat) :
    r.attempts h (n + 1) = (r.reached h).toList := by
  rw [attempts, passes_of_halt hp, List.filterMap_cons]
  cases r.reached h <;> rfl

theorem attempts_of_none {r' : Run σ} (hp : r.pass h = (r', none)) (n : Nat) :
    r.attempts h (n + 1) = (r.reached h).toList ++ r'.elapse.attempts h n := by
  rw [attempts, passes_of_none hp, List.filterMap_cons]
  cases r.reached h <;> rfl

inductive Remembers (h : Host σ) : Option UInt16 → List (Run σ) → Option UInt16 → Prop where
  | nil (a : Option UInt16) : Remembers h a [] a
  | cons {a a' : Option UInt16} {q : Run σ} {later : List (Run σ)}
      (hq : q.session.resumeAt = a)
      (hrest : Remembers h (Halt.resumption (q.attempt h).2) later a') :
      Remembers h a (q :: later) a'

variable {first middle last : Option UInt16} {earlier later : List (Run σ)}

theorem Remembers.append (hearlier : Remembers h first earlier middle)
    (hlater : Remembers h middle later last) : Remembers h first (earlier ++ later) last := by
  induction hearlier with
  | nil => exact hlater
  | cons hq _ ih => exact .cons hq (ih hlater)

theorem Remembers.resumeAt_zero (hl : Remembers h first later last) (hq : later[0]? = some q) :
    q.session.resumeAt = first := by
  cases hl with
  | nil => cases hq
  | cons hfirst _ =>
    cases hq
    exact hfirst

theorem Remembers.resumeAt_succ {p : Run σ} {i : Nat} (hl : Remembers h first later last)
    (hp : later[i]? = some p) (hq : later[i + 1]? = some q) :
    q.session.resumeAt = Halt.resumption (p.attempt h).2 := by
  induction hl generalizing i with
  | nil => cases hp
  | cons _ hrest ih =>
    cases i with
    | zero =>
      cases hp
      exact hrest.resumeAt_zero hq
    | succ i => exact ih hp hq

def HaltedBefore (h : Host σ) (attempts : List (Run σ)) (i : Nat) (pc : UInt16) : Prop :=
  ∃ j p, i = j + 1 ∧ attempts[j]? = some p ∧ p.HaltsAt h pc

variable {attempts : List (Run σ)} {q' : Run σ} {i j : Nat}

theorem Remembers.resumeAt_eq_iff (hl : Remembers h none attempts last)
    (hq : attempts[i]? = some q) :
    q.session.resumeAt = some pc ↔ HaltedBefore h attempts i pc := by
  cases i with
  | zero =>
    rw [hl.resumeAt_zero hq]
    refine ⟨nofun, ?_⟩
    rintro ⟨j, p, hj, _⟩
    cases hj
  | succ i =>
    have hlt : i < attempts.length := Nat.lt_of_succ_lt (List.getElem?_eq_some_iff.1 hq).1
    have hp : attempts[i]? = some attempts[i] := List.getElem?_eq_getElem hlt
    rw [hl.resumeAt_succ hp hq, Halt.resumption_eq_some_iff]
    refine ⟨fun hhalt => ⟨i, _, rfl, hp, hhalt⟩, ?_⟩
    rintro ⟨j, p, hj, hp', hhalt⟩
    cases hj
    rw [hp] at hp'
    cases hp'
    exact hhalt

theorem Remembers.haltsAt_iff (hl : Remembers h none attempts last)
    (hq : attempts[i]? = some q) (hmem : q.board.cpu.pc ∈ q.session.breakpoints) :
    q.HaltsAt h q.board.cpu.pc ↔ ¬HaltedBefore h attempts i q.board.cpu.pc := by
  rw [← hl.resumeAt_eq_iff hq, Run.haltsAt_iff, AtBreakpoint]
  exact ⟨fun hb => hb.1.1, fun hne => ⟨⟨hne, hmem⟩, rfl⟩⟩

end Run

namespace Console

variable {σ : Type} {h : Host σ}

def attempts (h : Host σ) : Console σ → List (HostCall σ) → List (Run (σ × Journal))
  | _, [] => []
  | c, .run :: calls =>
    (c.launch h).attempts h.journaled c.session.allowance ++ attempts h (c.apply h .run) calls
  | c, call :: calls => attempts h (c.apply h call) calls

end Console

end ChipEight
