import ChipEight.Proofs.Board.Residue
import ChipEight.Proofs.Listing.Instructions

namespace ChipEight

def linesAt (level : Level) (log : List Event) : List String :=
  (log.filter fun e => e.level = level).map Event.text

theorem linesAt_cons (level : Level) (e : Event) (log : List Event) :
    linesAt level (e :: log) =
      if e.level = level then e.text :: linesAt level log else linesAt level log := by
  by_cases h : e.level = level <;> simp [linesAt, h]

namespace Board

variable {b : Board} {i : Instruction}

theorem level_of_mem_log_execute (b : Board) (i : Instruction) :
    ∀ e ∈ (b.execute i).log, e.level = .debug := by
  rcases b.log_execute i with h | ⟨target, h⟩ | ⟨x, h⟩ <;> simp [h, Event.level]

theorem linesAt_log_execute {level : Level} (hlevel : level ≠ .debug) (b : Board)
    (i : Instruction) :
    linesAt level (b.execute i).log = [] := by
  have hnone : (b.execute i).log.filter (fun e => e.level = level) = [] := by
    refine List.filter_eq_nil_iff.2 fun e he => ?_
    simpa [b.level_of_mem_log_execute i e he] using hlevel.symm
  rw [linesAt, hnone, List.map_nil]

def lineAtPc (b : Board) : String :=
  codeLine b.cpu.pc.toNat b.wordAtPc b.wordAtPc.mnemonic

theorem listing_at_pc (h : b.cpu.pc.toNat + 1 < memorySize) :
    b.memory.listing b.cpu.pc 1 = b.lineAtPc ++ "\n" := by
  rw [Memory.listing, Memory.listingLines_succ h, Memory.listingLines]
  simp [lineAtPc, Memory.codeAt, Memory.wordAt, wordAtPc]

theorem log_step_of_fetches (hrun : b.cpu.mode = .running) (hi : b.Fetches i) :
    b.step.log = .executing b.cpu.pc b.wordAtPc i :: (b.execute i).log := by
  simp [step_of_fetches hrun hi]

theorem text_executing (hi : b.Fetches i) :
    (Event.executing b.cpu.pc b.wordAtPc i).text = b.lineAtPc := by
  rw [lineAtPc, Word.mnemonic_of_decode hi.decode]
  rfl

theorem linesAt_step_of_fetches (hrun : b.cpu.mode = .running) (hi : b.Fetches i) :
    linesAt .trace b.step.log = [b.lineAtPc] ∧ linesAt .error b.step.log = [] := by
  have htrace : linesAt .trace (b.execute i).log = [] := linesAt_log_execute (by decide) b i
  have herror : linesAt .error (b.execute i).log = [] := linesAt_log_execute (by decide) b i
  rw [log_step_of_fetches hrun hi, linesAt_cons, linesAt_cons, htrace, herror, text_executing hi]
  exact ⟨if_pos rfl, if_neg nofun⟩

theorem not_opcode_of_fetches (hrun : b.cpu.mode = .running) (hi : b.Fetches i) {f : Fault}
    (h : b.step.outcome = .error f) : f.area ≠ .opcode := by
  rw [step_of_fetches hrun hi] at h
  exact area_of_faults ((outcome_execute_error_iff i).1 (Effect.finish_outcome_error_iff.1 h))

theorem log_step_of_resting (h : b.cpu.mode ≠ .running ∨ memorySize ≤ b.cpu.pc.toNat + 1) :
    b.step.log = [] := by
  rcases b.running_or_awaiting with hrun | ⟨x, hwait⟩
  · rw [step_of_unfetchable hrun (h.resolve_left (not_not_intro hrun))]
  · rw [step_of_awaiting hwait]

theorem step_traces_listed_line (b : Board) :
    (b.cpu.mode = .running → b.cpu.pc.toNat ≤ 4094 →
      ∃ (l : String) (address code mnemonic : Line),
        b.memory.listing b.cpu.pc 1 = l ++ "\n" ∧ '\n' ∉ l.toList ∧
        columns l.toList = [address, code, mnemonic] ∧
        ((∃ f, b.step.outcome = .error f ∧ f.area = .opcode) ↔
          mnemonic = unknownMnemonic.toList) ∧
        (mnemonic = unknownMnemonic.toList →
          b.step.board = b.setBroken true ∧
          ∃ w, b.memory.word b.cpu.pc.toNat = .ok w ∧ b.step.outcome = .error (.undecodable w) ∧
            linesAt .error b.step.log =
              ["fault at " ++ shortAddress b.cpu.pc.toNat ++ ": "
                ++ (Fault.undecodable w).message] ∧
            linesAt .trace b.step.log = []) ∧
        (mnemonic ≠ unknownMnemonic.toList →
          linesAt .trace b.step.log = [l] ∧ linesAt .error b.step.log = [])) ∧
    (b.cpu.mode ≠ .running ∨ 4094 < b.cpu.pc.toNat → b.step.log = []) := by
  have hsize : memorySize = 4096 := rfl
  refine ⟨fun hrun hpc => ?_, fun h => log_step_of_resting (h.imp_right (by omega))⟩
  have hin : b.cpu.pc.toNat + 1 < memorySize := by omega
  have hunknown : b.wordAtPc.mnemonic.toList = unknownMnemonic.toList ↔
      Instruction.decode b.wordAtPc = none := by
    rw [String.toList_inj, Word.mnemonic_eq_unknown_iff]
  refine ⟨b.lineAtPc, _, _, _, listing_at_pc hin, newline_not_mem_codeLine _ _,
    columns_codeLine _ _, ?_⟩
  rw [ne_eq, hunknown]
  rcases b.fetch_cases with hout | ⟨_, hw⟩ | ⟨i, hi⟩
  · omega
  · have hstep := step_of_undecodable hrun hin hw
    refine ⟨iff_of_true ⟨_, by rw [hstep], rfl⟩ hw, fun _ => ?_, fun h => absurd hw h⟩
    rw [hstep]
    exact ⟨rfl, _, b.memory.word_of_lt hin, rfl, rfl, rfl⟩
  · have hnot : Instruction.decode b.wordAtPc ≠ none := by simp [hi.decode]
    refine ⟨iff_of_false ?_ hnot, fun h => absurd h hnot, fun _ => linesAt_step_of_fetches hrun hi⟩
    rintro ⟨f, hf, harea⟩
    exact not_opcode_of_fetches hrun hi hf harea

theorem step_traces_listed_line_return :
    let b := loaded [0x00, 0xEE]
    let late : Board := { b with cpu := { b.cpu with pc := 0xFFF } }
    (b.cpu.mode = .running ∧ b.cpu.pc.toNat ≤ 4094) ∧ b.step.outcome = .error .stackEmpty ∧
      (∃ l, b.memory.listing b.cpu.pc 1 = l ++ "\n" ∧
        linesAt .trace b.step.log = [l] ∧ linesAt .error b.step.log = []) ∧
      4094 < late.cpu.pc.toNat ∧ late.step.log = [] := by
  intro b late
  have hi : b.Fetches .ret := fetches_loaded rfl
  have hout : b.step.outcome = .error .stackEmpty :=
    outcome_step_error_iff.2 ⟨rfl, .instruction hi (.ret rfl)⟩
  have hpc : b.cpu.pc.toNat ≤ 4094 := by
    rw [pc_loaded]
    decide
  obtain ⟨l, _, _, mnemonic, hl, _, _, hopcode, _, hknown⟩ :=
    (step_traces_listed_line b).1 rfl hpc
  have hmnemonic : mnemonic ≠ unknownMnemonic.toList := by
    intro h
    obtain ⟨f, hf, harea⟩ := hopcode.2 h
    obtain rfl : Fault.stackEmpty = f := Except.error.inj (hout.symm.trans hf)
    cases harea
  have hlate : 4094 < late.cpu.pc.toNat := by decide
  exact ⟨⟨rfl, hpc⟩, hout, ⟨l, hl, hknown hmnemonic⟩, hlate,
    (step_traces_listed_line late).2 (.inr hlate)⟩

end Board

end ChipEight
