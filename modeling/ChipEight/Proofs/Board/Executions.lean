import ChipEight.Proofs.Board.History

namespace ChipEight

def Command.resets : Command → Bool
  | reset | resetCpu => true
  | step | tick | key _ | keyOnCpu _ | load .. | loadProgram _ | loadRom _ | setRegister ..
  | setIndex _ | setBroken _ | setShutdown _ | setScreen _ => false

def Command.presses : Command → Bool
  | key e => e.down && decide (e.key ≤ 15)
  | keyOnCpu k => decide (k ≤ 15)
  | step | tick | load .. | loadProgram _ | loadRom _ | setRegister .. | setIndex _ | setBroken _
  | setShutdown _ | setScreen _ | reset | resetCpu => false

def Instruction.modeAfter : Instruction → Mode
  | transfer .awaitKey x => .awaitingKey x
  | _ => .running

theorem Instruction.modeAfter_eq_iff {i : Instruction} {x : RegisterName} :
    i.modeAfter = .awaitingKey x ↔ i = .transfer .awaitKey x := by
  unfold modeAfter
  split
  · simp
  · next hne =>
    refine ⟨nofun, ?_⟩
    rintro rfl
    exact absurd rfl (hne x)

def Part.writer : Part → Option Transfer
  | mode => some .awaitKey
  | delay => some .setDelay
  | sound => some .setSound
  | register _ | index | pc | stack | start | random | memory _ | screen | tone | keypad | broken
  | shutdown => none

namespace Board

def executed (b : Board) : Command → Option Instruction
  | .step =>
    match b.step.outcome with
    | .ok _ => if b.cpu.mode = .running then Instruction.decode b.wordAtPc else none
    | .error _ => none
  | _ => none

def executions (b : Board) : List Command → List (UInt16 × Instruction)
  | [] => []
  | c :: later => ((b.executed c).map (b.cpu.pc, ·)).toList ++ (b.apply c).executions later

variable {b : Board} {c : Command} {i : Instruction} {x : RegisterName}

theorem executed_step_of_ok (hrun : b.cpu.mode = .running) (hi : b.Fetches i) {notice : Notice}
    (hok : b.step.outcome = .ok notice) : b.executed .step = some i := by
  simp only [executed, hok, if_pos hrun, hi.decode]

theorem executed_step_of_error {f : Fault} (hf : b.step.outcome = .error f) :
    b.executed .step = none := by
  simp only [executed, hf]

theorem executed_of_not_faults (hrun : b.cpu.mode = .running) (hi : b.Fetches i)
    (hn : ∀ f, ¬i.Faults b f) : b.executed .step = some i := by
  cases hout : b.step.outcome with
  | error f =>
    obtain ⟨_, hf⟩ := outcome_step_error_iff.1 hout
    cases hf with
    | unfetchable hpc => exact absurd hi.inside (by omega)
    | undecodable hpc hw => exact absurd (hw.symm.trans hi.decode) nofun
    | instruction hj hfj => exact absurd (hi.unique hj ▸ hfj) (hn f)
  | ok notice => exact executed_step_of_ok hrun hi hout

theorem executed_of_awaiting (hw : b.cpu.mode = .awaitingKey x) (c : Command) :
    b.executed c = none := by
  cases c with
  | step => simp [executed, step_of_awaiting hw, hw]
  | _ => rfl

theorem executed_eq_some_iff :
    b.executed c = some i ↔
      c = .step ∧ b.cpu.mode = .running ∧ b.Fetches i ∧ ∃ notice, b.step.outcome = .ok notice := by
  constructor
  · intro h
    cases c with
    | step =>
      rcases b.running_or_awaiting with hrun | ⟨x, hwait⟩
      · cases hout : b.step.outcome with
        | error f => exact absurd ((executed_step_of_error hout).symm.trans h) nofun
        | ok notice =>
          obtain ⟨j, hj⟩ := fetches_of_ok hrun hout
          obtain rfl := Option.some.inj ((executed_step_of_ok hrun hj hout).symm.trans h)
          exact ⟨rfl, hrun, hj, notice, rfl⟩
      · exact absurd ((executed_of_awaiting hwait .step).symm.trans h) nofun
    | _ => cases h
  · rintro ⟨rfl, hrun, hi, notice, hok⟩
    exact executed_step_of_ok hrun hi hok

theorem step_of_executed_none (hn : b.executed .step = none) :
    (∃ x, b.cpu.mode = .awaitingKey x) ∨ ∃ f, b.step.outcome = .error f := by
  rcases b.running_or_awaiting with hrun | hwait
  · cases hout : b.step.outcome with
    | error f => exact .inr ⟨f, rfl⟩
    | ok notice =>
      obtain ⟨i, hi⟩ := fetches_of_ok hrun hout
      exact absurd (hn.symm.trans (executed_step_of_ok hrun hi hout)) nofun
  · exact .inl hwait

theorem agreesAt_step_of_executed {p : Part} (hp : p.control = true) (hne : p ≠ .pc)
    (h : ∀ i, b.executed .step = some i → p ∉ i.footprint b) : b.AgreesAt b.step.board p := by
  cases he : b.executed .step with
  | none =>
    rcases step_of_executed_none he with ⟨x, hwait⟩ | ⟨f, hf⟩
    · rw [step_of_awaiting hwait]
      exact .refl b p
    · exact control_step_of_error hf hp
  | some i =>
    obtain ⟨_, hrun, hi, notice, hok⟩ := executed_eq_some_iff.1 he
    exact agreesAt_step_of_ok hrun hi hok hne (h i he)

theorem executions_cons_of_some (h : b.executed c = some i) (later : List Command) :
    b.executions (c :: later) = (b.cpu.pc, i) :: (b.apply c).executions later := by
  rw [executions, h]
  rfl

theorem executions_cons_of_none (h : b.executed c = none) (later : List Command) :
    b.executions (c :: later) = (b.apply c).executions later := by
  rw [executions, h]
  rfl

theorem after_append (b : Board) (earlier later : List Command) :
    b.after (earlier ++ later) = (b.after earlier).after later :=
  List.foldl_append

theorem mem_footprint_iff_of_writer (b : Board) (i : Instruction) {p : Part} {op : Transfer}
    (hp : p.writer = some op) : p ∈ i.footprint b ↔ ∃ x, i = .transfer op x := by
  constructor
  · intro hm
    cases i with
    | transfer other x =>
      cases other with
      | awaitKey | setDelay | setSound =>
        obtain rfl := hm
        cases hp
        exact ⟨x, rfl⟩
      | readDelay | addToIndex | pointToGlyph =>
        obtain rfl := hm
        cases hp
      | storeDigits =>
        obtain ⟨a, rfl, _⟩ := hm
        cases hp
      | storeRegisters => obtain rfl | ⟨a, rfl, _⟩ := hm <;> cases hp
      | loadRegisters => obtain rfl | ⟨y, _, rfl⟩ := hm <;> cases hp
    | arithmetic op x y => obtain rfl | ⟨_, rfl⟩ := hm <;> cases hp
    | random x nn | draw x y n => obtain rfl | rfl := hm <;> cases hp
    | jump nnn | skip c | jumpOffset nnn => exact absurd hm id
    | _ =>
      obtain rfl := hm
      cases hp
  · rintro ⟨x, rfl⟩
    cases p with
    | mode | delay | sound =>
      cases hp
      rfl
    | _ => cases hp

end Board

end ChipEight
