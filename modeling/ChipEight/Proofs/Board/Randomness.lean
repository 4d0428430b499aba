import ChipEight.Proofs.Board.Executions
import ChipEight.Proofs.Board.Reset

namespace ChipEight

def Instruction.drawsByte : Instruction → Bool
  | random .. => true
  | clear | ret | jump _ | call _ | skip _ | load .. | add .. | arithmetic .. | loadIndex _
  | jumpOffset _ | draw .. | transfer .. => false

theorem RandomSource.skip_skip (r : RandomSource) (m n : Nat) :
    (r.skip m).skip n = r.skip (m + n) := by
  rw [skip, skip, skip, Nat.add_assoc]

namespace Board

def executedBy (b : Board) : Operation → Option Instruction
  | .board c => b.executed c
  | .screen _ | .setPc _ => none

def instructions (b : Board) : List Operation → List Instruction
  | [] => []
  | op :: later => (b.executedBy op).toList ++ (b.operate op).instructions later

def withWords (b : Board) (word : Nat → UInt32) : Board :=
  b.withRandom { b.cpu.random with word }

variable {b b' : Board} {i : Instruction} {x : RegisterName} {nn : UInt8}

theorem random_mem_footprint_iff (b : Board) (i : Instruction) :
    .random ∈ i.footprint b ↔ i.drawsByte = true := by
  constructor
  · intro hm
    cases i with
    | random x nn => rfl
    | jump nnn | skip c | jumpOffset nnn => exact absurd hm id
    | arithmetic op x y => obtain hm | ⟨_, hm⟩ := hm <;> cases hm
    | draw x y n => obtain hm | hm := hm <;> cases hm
    | transfer op x => cases Part.transferred_of_mem hm
    | _ => cases hm
  · intro hd
    cases i with
    | random x nn => exact .inr rfl
    | _ => cases hd

theorem random_step (b : Board) :
    b.step.board.cpu.random =
      b.cpu.random.skip ((b.executed .step).toList.countP Instruction.drawsByte) := by
  cases hexecuted : b.executed .step with
  | none =>
    refine agreesAt_step_of_executed (p := .random) rfl nofun fun i hi => ?_
    cases hexecuted.symm.trans hi
  | some i =>
    obtain ⟨_, hrun, hi, _⟩ := executed_eq_some_iff.1 hexecuted
    cases hd : i.drawsByte with
    | false =>
      have hcount : [i].countP Instruction.drawsByte = 0 := by simp [hd]
      have hkept : b.AgreesAt b.step.board .random := by
        refine agreesAt_step_of_executed rfl nofun fun j hj hm => ?_
        obtain rfl := Option.some.inj (hexecuted.symm.trans hj)
        exact absurd (hd.symm.trans ((b.random_mem_footprint_iff i).1 hm)) nofun
      rw [Option.toList_some, hcount]
      exact hkept
    | true =>
      cases i with
      | random x nn =>
        rw [step_of_fetches hrun hi]
        rfl
      | _ => cases hd

theorem random_operate (b : Board) (op : Operation) :
    (b.operate op).cpu.random =
      b.cpu.random.skip ((b.executedBy op).toList.countP Instruction.drawsByte) := by
  cases op with
  | screen c | setPc pc => rfl
  | board c =>
    cases c with
    | step => exact b.random_step
    | key e => exact b.agreesAt_handleKey (p := .random) e rfl
    | keyOnCpu key => exact b.agreesAt_pressOnCpu (p := .random) key rfl
    | setRegister x value => exact b.agreesAt_writeRegister (p := .random) x value nofun
    | _ => rfl

theorem random_afterAll (b : Board) (ops : List Operation) :
    (b.afterAll ops).cpu.random =
      b.cpu.random.skip ((b.instructions ops).countP Instruction.drawsByte) := by
  induction ops generalizing b with
  | nil => rfl
  | cons op ops ih =>
    change ((b.operate op).afterAll ops).cpu.random = _
    rw [ih, b.random_operate op, RandomSource.skip_skip, instructions, List.countP_append]

theorem step_of_random (hrun : b.cpu.mode = .running) (hi : b.Fetches (.random x nn)) :
    b.executed .step = some (.random x nn) ∧
      b.step.board.cpu.register x =
        (b.cpu.random.word b.cpu.random.taken).toUInt8 &&& nn := by
  have hstep := step_of_fetches hrun hi
  have hok : b.step.outcome = .ok .nothing := congrArg Reply.outcome hstep
  refine ⟨executed_step_of_ok hrun hi hok, ?_⟩
  rw [hstep]
  exact (Cpu.register_setRegister _ x x _).trans (if_pos rfl)

end Board

def Likeness.restreamed {word word' : Nat → UInt32}
    (h : ∀ k, (word' k).toUInt8 = (word k).toUInt8) : Likeness :=
  { Likeness.exact with
    random := fun r r' => r.word = word ∧ r' = { r with word := word' }
    byte_eq := by
      rintro r _ ⟨rfl, rfl⟩
      exact h r.taken
    random_next := by
      rintro r _ ⟨rfl, rfl⟩
      exact ⟨rfl, rfl⟩ }

namespace Board

variable {b b' : Board}

theorem eq_withWords_of_alike {word word' : Nat → UInt32}
    {h : ∀ k, (word' k).toUInt8 = (word k).toUInt8} (ha : (Likeness.restreamed h).Alike b b') :
    b' = b.withWords word' := by
  obtain ⟨hcore, ⟨_, hrandom⟩, hfade, htone, hbroken, hshutdown⟩ := ha
  have hguise : b'.guise = { b.guise with random := { b.cpu.random with word := word' } } :=
    Guise.ext hrandom hfade htone hbroken hshutdown
  rw [hcore, hguise]
  rfl

theorem afterAll_withWords {word' : Nat → UInt32}
    (h : ∀ k, (word' k).toUInt8 = (b.cpu.random.word k).toUInt8) (ops : List Operation) :
    (b.withWords word').answers ops = b.answers ops ∧
      (b.withWords word').afterAll ops = (b.afterAll ops).withWords word' := by
  have halike : (Likeness.restreamed h).Alike b (b.withWords word') :=
    ⟨rfl, ⟨rfl, rfl⟩, rfl, rfl, rfl, rfl⟩
  obtain ⟨hboards, hanswers⟩ := halike.afterAll ops
  exact ⟨hanswers, eq_withWords_of_alike hboards⟩

theorem random_words_drawn :
    (∀ (kind : ToneKind) (start : UInt16) (word : Nat → UInt32) (history : List Operation),
      let b := powerOn kind start { word }
      let now := b.afterAll history
      let drawn := (b.instructions history).countP Instruction.drawsByte
      now.cpu.random = { word, taken := drawn } ∧
      ∀ x nn, now.cpu.mode = .running → now.Fetches (.random x nn) →
        now.executed .step = some (.random x nn) ∧
        (now.step.board.cpu.register x).toNat = (word drawn).toNat % 256 &&& nn.toNat) ∧
    ∀ (b : Board) (word' : Nat → UInt32) (history : List Operation),
      (∀ k, (word' k).toNat % 256 = (b.cpu.random.word k).toNat % 256) →
      (b.withWords word').answers history = b.answers history ∧
        (b.withWords word').afterAll history = (b.afterAll history).withWords word' := by
  refine ⟨fun kind start word history => ?_, fun b word' history h => ?_⟩
  · intro b now drawn
    have hrandom : now.cpu.random = { word, taken := drawn } := by
      have hskip : now.cpu.random = { word, taken := 0 + drawn } := b.random_afterAll history
      rwa [Nat.zero_add] at hskip
    refine ⟨hrandom, fun x nn hrun hi => ?_⟩
    obtain ⟨hexecuted, hstored⟩ := step_of_random hrun hi
    refine ⟨hexecuted, ?_⟩
    rw [hstored, hrandom, UInt8.toNat_and, UInt32.toNat_toUInt8]
  · refine afterAll_withWords (fun k => UInt8.toNat_inj.1 ?_) history
    rw [UInt32.toNat_toUInt8, UInt32.toNat_toUInt8]
    exact h k

theorem random_words_drawn_resetting :
    let word (k : Nat) : UInt32 := UInt32.ofNat (k + 7)
    let word' (k : Nat) : UInt32 := UInt32.ofNat (k + 0x507)
    let b := powerOn .beeper 0x200 { word }
    let load : Operation := .board (.loadProgram [0xC0, 0xFF, 0xC1, 0x0F])
    let history : List Operation := [load, .board .step, .board .reset, load, .board .step]
    let now := b.afterAll history
    (now.cpu.mode = .running ∧ now.Fetches (.random 1 0x0F) ∧
      ∀ k, (word' k).toNat % 256 = (b.cpu.random.word k).toNat % 256) ∧
      (now.step.board.cpu.register 1).toNat = 9 ∧
      (b.withWords word').answers history = b.answers history := by
  intro word word' b load history now
  obtain ⟨hrun, hinside, hword, hdrawn⟩ : now.cpu.mode = .running ∧
      now.cpu.pc.toNat + 1 < memorySize ∧ (Instruction.random 1 0x0F).word = now.wordAtPc ∧
      b.instructions history = [.random 0 0xFF, .random 0 0xFF] := by
    decide +kernel
  have hi : now.Fetches (.random 1 0x0F) := ⟨hinside, hword⟩
  have hwords : ∀ k, (word' k).toNat % 256 = (b.cpu.random.word k).toNat % 256 := by
    intro k
    change (UInt32.ofNat (k + 0x507)).toNat % 256 = (UInt32.ofNat (k + 7)).toNat % 256
    rw [UInt32.toNat_ofNat', UInt32.toNat_ofNat']
    omega
  obtain ⟨_, hstored⟩ := (random_words_drawn.1 .beeper 0x200 word history).2 1 0x0F hrun hi
  refine ⟨⟨hrun, hi, hwords⟩, ?_, (random_words_drawn.2 b word' history hwords).1⟩
  rw [hstored, hdrawn]
  change (UInt32.ofNat (2 + 7)).toNat % 256 &&& 15 = 9
  decide

end Board

end ChipEight
