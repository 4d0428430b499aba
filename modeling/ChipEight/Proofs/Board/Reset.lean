import ChipEight.Proofs.Board.Likeness

namespace ChipEight

namespace RandomSource

def rest (r : RandomSource) : RandomSource :=
  { word := fun i => r.word (r.taken + i) }

def skip (r : RandomSource) (n : Nat) : RandomSource :=
  { r with taken := r.taken + n }

end RandomSource

def Likeness.resumed (r : RandomSource) : Likeness :=
  { Likeness.exact with
    random := fun s s' => s.word = r.rest.word ∧ s' = r.skip s.taken
    byte_eq := by
      rintro s _ ⟨hword, rfl⟩
      exact congrArg (fun word : Nat → UInt32 => (word s.taken).toUInt8) hword.symm
    random_next := by
      rintro s _ ⟨hword, rfl⟩
      exact ⟨hword, rfl⟩ }

namespace Board

def origin (b : Board) : ToneKind × UInt16 × (Nat → UInt32) :=
  (b.tone.kind, b.cpu.start, b.cpu.random.word)

def withRandom (b : Board) (random : RandomSource) : Board :=
  { b with cpu := { b.cpu with random } }

variable {b b' : Board}

theorem reset_eq_powerOn (b : Board) : b.reset = powerOn b.tone.kind b.cpu.start b.cpu.random := rfl

theorem origin_eq_of_agreesAt (htone : b.AgreesAt b' .tone) (hstart : b.AgreesAt b' .start)
    (hrandom : b.AgreesAt b' .random) : b'.origin = b.origin := by
  have htone : b'.tone = b.tone := htone
  have hstart : b'.cpu.start = b.cpu.start := hstart
  have hrandom : b'.cpu.random = b.cpu.random := hrandom
  simp only [origin, htone, hstart, hrandom]

theorem origin_execute (b : Board) (i : Instruction) : (b.execute i).board.origin = b.origin := by
  have hkept {p : Part} (hp : p.fixed = true) : b.AgreesAt (b.execute i).board p :=
    b.agreesAt_execute i (Part.not_mem_footprint b i hp)
  cases i with
  | random x nn => rfl
  | clear => rfl
  | draw x y n =>
    exact origin_eq_of_agreesAt (hkept rfl) (hkept rfl)
      (b.agreesAt_drawSprite x y n.val nofun nofun)
  | _ => exact origin_eq_of_agreesAt (hkept rfl) (hkept rfl) (agreesAt_random_of_plain rfl)

theorem origin_finish (e : Effect) : e.finish.board.origin = e.board.origin := by
  cases hout : e.outcome with
  | ok r => rw [Effect.finish_of_ok hout, origin, origin]
  | error f => rw [Effect.finish_of_error hout]

theorem origin_step (b : Board) : b.step.board.origin = b.origin := by
  rcases b.running_or_awaiting with hrun | ⟨x, hwait⟩
  · rcases b.fetch_cases with hout | ⟨hin, hw⟩ | ⟨i, hi⟩
    · rw [step_of_unfetchable hrun hout]
    · rw [step_of_undecodable hrun hin hw]
      rfl
    · rw [step_of_fetches hrun hi]
      exact (origin_finish (b.execute i)).trans (b.origin_execute i)
  · rw [step_of_awaiting hwait]

theorem origin_operate (b : Board) (op : Operation) : (b.operate op).origin = b.origin := by
  cases op with
  | screen c | setPc pc => rfl
  | board c =>
    cases c with
    | step => exact b.origin_step
    | key e =>
      exact origin_eq_of_agreesAt (b.agreesAt_handleKey e rfl) (b.agreesAt_handleKey e rfl)
        (b.agreesAt_handleKey e rfl)
    | keyOnCpu key =>
      exact origin_eq_of_agreesAt (b.agreesAt_pressOnCpu key rfl) (b.agreesAt_pressOnCpu key rfl)
        (b.agreesAt_pressOnCpu key rfl)
    | setRegister x value =>
      exact origin_eq_of_agreesAt (b.agreesAt_writeRegister x value nofun)
        (b.agreesAt_writeRegister x value nofun) (b.agreesAt_writeRegister x value nofun)
    | _ => rfl

theorem origin_afterAll (b : Board) (ops : List Operation) :
    (b.afterAll ops).origin = b.origin := by
  induction ops generalizing b with
  | nil => rfl
  | cons op ops ih => exact (ih (b.operate op)).trans (b.origin_operate op)

theorem reset_afterAll_powerOn (kind : ToneKind) (start : UInt16) (random : RandomSource)
    (history : List Operation) :
    let b := (powerOn kind start random).afterAll history
    b.reset = powerOn kind start { random with taken := b.cpu.random.taken } := by
  intro b
  have horigin : b.origin = (kind, start, random.word) := origin_afterAll _ history
  obtain ⟨hkind, hrest⟩ := Prod.mk.inj horigin
  obtain ⟨hstart, hword⟩ := Prod.mk.inj hrest
  rw [reset_eq_powerOn, hkind, hstart, ← hword]

theorem alike_powerOn_rest (kind : ToneKind) (start : UInt16) (random : RandomSource) :
    (Likeness.resumed random).Alike (powerOn kind start random.rest)
      (powerOn kind start random) :=
  ⟨rfl, ⟨rfl, rfl⟩, rfl, rfl, rfl, rfl⟩

theorem eq_withRandom_of_alike {r : RandomSource} (h : (Likeness.resumed r).Alike b b') :
    b' = b.withRandom (r.skip b.cpu.random.taken) := by
  obtain ⟨hcore, ⟨_, hrandom⟩, hfade, htone, hbroken, hshutdown⟩ := h
  have hguise : b'.guise = { b.guise with random := r.skip b.cpu.random.taken } :=
    Guise.ext hrandom hfade htone hbroken hshutdown
  rw [hcore, hguise]
  rfl

theorem reset_forgets (kind : ToneKind) (start : UInt16) (random : RandomSource)
    (history : List Operation) :
    let b := (powerOn kind start random).afterAll history
    let position := { random with taken := b.cpu.random.taken }
    b.reset = powerOn kind start position ∧
      ∀ later : List Operation,
        let fresh := powerOn kind start position.rest
        b.reset.answers later = fresh.answers later ∧
          b.reset.afterAll later =
            (fresh.afterAll later).withRandom
              (position.skip (fresh.afterAll later).cpu.random.taken) := by
  intro b position
  have hreset : b.reset = powerOn kind start position :=
    reset_afterAll_powerOn kind start random history
  refine ⟨hreset, ?_⟩
  intro later fresh
  obtain ⟨hboards, hanswers⟩ := (alike_powerOn_rest kind start position).afterAll later
  rw [hreset]
  exact ⟨hanswers, eq_withRandom_of_alike hboards⟩

end Board

end ChipEight
