import ChipEight.Proofs.Board.Fetch
import ChipEight.Proofs.Board.Footprint

namespace ChipEight

theorem toNat_instructionSize : instructionSize.toNat = 2 := rfl

namespace Advance

theorem toNat_next {pc : UInt16} (h : pc.toNat + 1 < memorySize) :
    (next.apply pc).toNat = pc.toNat + 2 := by
  rw [memorySize] at h
  rw [apply, UInt16.toNat_add, toNat_instructionSize]
  exact Nat.mod_eq_of_lt (by omega)

theorem toNat_skip {pc : UInt16} (h : pc.toNat + 1 < memorySize) :
    (skip.apply pc).toNat = pc.toNat + 4 := by
  have hnext := toNat_next h
  rw [apply] at hnext
  rw [memorySize] at h
  rw [apply, UInt16.toNat_add, hnext, toNat_instructionSize]
  exact Nat.mod_eq_of_lt (by omega)

end Advance

theorem Location.toNat_address (l : Location) : l.address.toNat = l.val := by
  rw [address, UInt16.toNat_ofNat', Nat.mod_eq_of_lt (by omega)]

theorem Location.toNat_offset (v : UInt8) (l : Location) :
    (v.toUInt16 + l.address).toNat = v.toNat + l.val := by
  have hv := v.toNat_lt
  rw [UInt16.toNat_add, toNat_address, UInt8.toNat_toUInt16, Nat.mod_eq_of_lt (by omega)]

def Condition.Holds (b : Board) : Condition → Prop
  | equals x nn => b.cpu.register x = nn
  | differs x nn => b.cpu.register x ≠ nn
  | same x y => b.cpu.register x = b.cpu.register y
  | distinct x y => b.cpu.register x ≠ b.cpu.register y
  | keyDown x => b.keypad.isDown (b.cpu.register x).toNat = .ok true
  | keyUp x => b.keypad.isDown (b.cpu.register x).toNat = .ok false

namespace Instruction

def Target (b : Board) (pc : Nat) : Instruction → Prop
  | jump nnn | call nnn => pc = nnn.val
  | ret => b.cpu.stack.frames.head?.map UInt16.toNat = some pc
  | jumpOffset nnn => pc = (b.cpu.register 0).toNat + nnn.val
  | skip c => c.Holds b ∧ pc = b.cpu.pc.toNat + 4 ∨ ¬c.Holds b ∧ pc = b.cpu.pc.toNat + 2
  | _ => pc = b.cpu.pc.toNat + 2

def framesAfter (b : Board) : Instruction → List UInt16
  | call _ => (b.cpu.pc + 2) :: b.cpu.stack.frames
  | ret => b.cpu.stack.frames.tail
  | _ => b.cpu.stack.frames

def notice : Instruction → Notice
  | clear | draw .. => .draw
  | transfer .awaitKey _ => .wait
  | _ => .nothing

end Instruction

namespace Board

variable {b : Board} {advance : Advance} {notice : Notice}

theorem holds_iff_of_ok {c : Condition} {met : Bool} (h : b.holds c = .ok met) :
    met = true ↔ c.Holds b := by
  cases c with
  | equals x nn | differs x nn | same x y | distinct x y =>
    cases h
    simp [Condition.Holds]
  | keyDown x =>
    rw [holds] at h
    rw [Condition.Holds, h, Except.ok.injEq]
  | keyUp x =>
    rw [holds] at h
    rw [Condition.Holds]
    cases hd : b.keypad.isDown (b.cpu.register x).toNat with
    | error f => simp [hd, Except.map] at h
    | ok down =>
      rw [hd, Except.map, Except.ok.injEq] at h
      subst h
      simp

theorem outcome_requireRoom_ok {count : Nat} {changed : Board}
    (h : (b.requireRoom count changed).outcome = .ok (advance, notice)) :
    advance = .next ∧ notice = .nothing := by
  cases hfits : b.fits count with
  | true =>
    rw [requireRoom_of_fits hfits] at h
    cases h
    exact ⟨rfl, rfl⟩
  | false =>
    rw [requireRoom_of_not_fits hfits] at h
    cases h

theorem target_skip {c : Condition} (h : (b.skip c).outcome = .ok (advance, notice))
    (hpc : b.cpu.pc.toNat + 1 < memorySize) :
    notice = .nothing ∧ (Instruction.skip c).Target b (advance.apply b.cpu.pc).toNat := by
  cases hmet : b.holds c with
  | ok met =>
    have hiff := holds_iff_of_ok hmet
    rw [skip_of_ok hmet] at h
    cases h
    refine ⟨rfl, ?_⟩
    cases met with
    | true => exact .inl ⟨hiff.1 rfl, Advance.toNat_skip hpc⟩
    | false => exact .inr ⟨fun hc => absurd (hiff.2 hc) nofun, Advance.toNat_next hpc⟩
  | error f =>
    rw [skip_of_error hmet] at h
    cases h

theorem target_call {nnn : Location} (h : (b.call nnn).outcome = .ok (advance, notice)) :
    notice = .nothing ∧ (advance.apply b.cpu.pc).toNat = nnn.val ∧
      (b.call nnn).board.cpu.stack.frames = (b.cpu.pc + 2) :: b.cpu.stack.frames := by
  rcases Nat.lt_or_eq_of_le b.cpu.stack.depth_le with hroom | hfull
  · obtain ⟨stack, hframes, hcall⟩ := call_of_room nnn hroom
    rw [hcall] at h ⊢
    cases h
    exact ⟨rfl, nnn.toNat_address, hframes⟩
  · rw [call_of_full nnn hfull] at h
    cases h

theorem target_ret (h : b.ret.outcome = .ok (advance, notice)) :
    notice = .nothing ∧
      b.cpu.stack.frames = advance.apply b.cpu.pc :: b.ret.board.cpu.stack.frames := by
  rcases Nat.eq_zero_or_pos b.cpu.stack.depth with hempty | hpos
  · rw [ret_of_empty hempty] at h
    cases h
  · obtain ⟨target, stack, hframes, hret⟩ := ret_of_pos hpos
    rw [hret] at h ⊢
    cases h
    exact ⟨rfl, hframes⟩

theorem target_drawSprite {x y : RegisterName} {rows : Nat}
    (h : (b.drawSprite x y rows).outcome = .ok (advance, notice)) :
    advance = .next ∧ notice = .draw := by
  cases hfits : b.fits rows with
  | true =>
    rw [drawSprite_of_fits hfits] at h
    cases h
    exact ⟨rfl, rfl⟩
  | false =>
    rw [drawSprite_of_not_fits hfits] at h
    cases h

theorem target_transfer {x : RegisterName} {op : Transfer}
    (h : (b.transfer x op).outcome = .ok (advance, notice)) :
    advance = .next ∧ notice = (Instruction.transfer op x).notice := by
  cases op with
  | readDelay | awaitKey | setDelay | setSound | addToIndex =>
    cases h
    exact ⟨rfl, rfl⟩
  | pointToGlyph =>
    rcases Nat.lt_or_ge 15 (b.cpu.register x).toNat with hlarge | hdigit
    · rw [pointToGlyph_of_lt hlarge] at h
      cases h
    · obtain ⟨address, hpoint⟩ := pointToGlyph_of_le hdigit
      rw [hpoint] at h
      cases h
      exact ⟨rfl, rfl⟩
  | storeDigits | storeRegisters | loadRegisters => exact outcome_requireRoom_ok h

theorem frames_of_not_mem {i : Instruction} (h : .stack ∉ i.footprint b) :
    (b.execute i).board.cpu.stack.frames = b.cpu.stack.frames :=
  congrArg CallStack.frames (b.agreesAt_execute i h)

theorem outcome_execute_ok {i : Instruction}
    (h : (b.execute i).outcome = .ok (advance, notice)) (hpc : b.cpu.pc.toNat + 1 < memorySize) :
    notice = i.notice ∧ i.Target b (advance.apply b.cpu.pc).toNat ∧
      (b.execute i).board.cpu.stack.frames = i.framesAfter b := by
  cases i with
  | clear | load x nn | add x nn | random x nn | loadIndex nnn =>
    cases h
    exact ⟨rfl, Advance.toNat_next hpc, rfl⟩
  | jump nnn =>
    cases h
    exact ⟨rfl, nnn.toNat_address, rfl⟩
  | jumpOffset nnn =>
    cases h
    exact ⟨rfl, Location.toNat_offset _ nnn, rfl⟩
  | arithmetic op x y =>
    cases h
    refine ⟨rfl, Advance.toNat_next hpc, frames_of_not_mem ?_⟩
    rintro (he | ⟨_, he⟩) <;> cases he
  | ret =>
    obtain ⟨hnotice, hframes⟩ := target_ret h
    refine ⟨hnotice, ?_, ?_⟩
    · change b.cpu.stack.frames.head?.map UInt16.toNat = _
      rw [hframes, List.head?_cons, Option.map_some]
    · have htail := congrArg List.tail hframes
      rw [List.tail_cons] at htail
      exact htail.symm
  | call nnn =>
    obtain ⟨rfl, htarget, hframes⟩ := target_call h
    exact ⟨rfl, htarget, hframes⟩
  | skip c =>
    obtain ⟨rfl, htarget⟩ := target_skip h hpc
    exact ⟨rfl, htarget, frames_of_not_mem id⟩
  | draw x y n =>
    obtain ⟨rfl, rfl⟩ := target_drawSprite h
    refine ⟨rfl, Advance.toNat_next hpc, frames_of_not_mem ?_⟩
    rintro (he | he) <;> cases he
  | transfer op x =>
    obtain ⟨rfl, rfl⟩ := target_transfer h
    refine ⟨rfl, Advance.toNat_next hpc, frames_of_not_mem fun hm => ?_⟩
    exact absurd (Part.transferred_of_mem hm) nofun

theorem fetches_of_ok (hrun : b.cpu.mode = .running) (hok : b.step.outcome = .ok notice) :
    ∃ i, b.Fetches i := by
  rcases b.fetch_cases with hout | ⟨hin, hw⟩ | hi
  · rw [step_of_unfetchable hrun hout] at hok
    cases hok
  · rw [step_of_undecodable hrun hin hw] at hok
    cases hok
  · exact hi

theorem step_of_ok {i : Instruction} (hrun : b.cpu.mode = .running) (hi : b.Fetches i)
    (hok : b.step.outcome = .ok notice) :
    ∃ advance, (b.execute i).outcome = .ok (advance, notice) ∧
      b.step.board =
        { (b.execute i).board with
          cpu := { (b.execute i).board.cpu with pc := advance.apply b.cpu.pc } } := by
  have hpc : (b.execute i).board.cpu.pc = b.cpu.pc :=
    b.agreesAt_execute i (p := .pc) (Part.not_mem_footprint b i rfl)
  rw [step_of_fetches hrun hi] at hok ⊢
  cases h : (b.execute i).outcome with
  | error f =>
    rw [Effect.finish_of_error h] at hok
    cases hok
  | ok r =>
    obtain ⟨advance, n⟩ := r
    rw [Effect.finish_of_ok h] at hok ⊢
    cases hok
    exact ⟨advance, rfl, by rw [hpc]⟩

theorem agreesAt_setPc (b : Board) (pc : UInt16) {p : Part} (h : p ≠ .pc) :
    b.AgreesAt { b with cpu := { b.cpu with pc } } p := by
  cases p with
  | pc => exact absurd rfl h
  | _ => rfl

theorem agreesAt_step_of_ok {i : Instruction} (hrun : b.cpu.mode = .running) (hi : b.Fetches i)
    (hok : b.step.outcome = .ok notice) {p : Part} (hp : p ≠ .pc) (hm : p ∉ i.footprint b) :
    b.AgreesAt b.step.board p := by
  obtain ⟨advance, _, hboard⟩ := step_of_ok hrun hi hok
  rw [hboard]
  exact (b.agreesAt_execute i hm).trans (agreesAt_setPc _ _ hp)

theorem flags_step_of_ok (hok : b.step.outcome = .ok notice) :
    b.step.board.broken = b.broken ∧ b.step.board.shutdown = b.shutdown := by
  rcases b.running_or_awaiting with hrun | ⟨x, hwait⟩
  · obtain ⟨i, hi⟩ := fetches_of_ok hrun hok
    have hagrees {p : Part} (hp : p.fixed = true) (hne : p ≠ .pc) : b.AgreesAt b.step.board p :=
      agreesAt_step_of_ok hrun hi hok hne (Part.not_mem_footprint b i hp)
    exact ⟨hagrees (p := .broken) rfl nofun, hagrees (p := .shutdown) rfl nofun⟩
  · rw [step_of_awaiting hwait]
    exact ⟨rfl, rfl⟩

theorem flow_step_of_ok {i : Instruction} (hrun : b.cpu.mode = .running) (hi : b.Fetches i)
    (hok : b.step.outcome = .ok notice) :
    notice = i.notice ∧ i.Target b b.step.board.cpu.pc.toNat ∧
      b.step.board.cpu.stack.frames = i.framesAfter b := by
  obtain ⟨advance, hout, hboard⟩ := step_of_ok hrun hi hok
  rw [hboard]
  exact outcome_execute_ok hout hi.inside

theorem successful_step_frame (hrun : b.cpu.mode = .running)
    (hok : b.step.outcome = .ok notice) :
    ∃ i, b.Fetches i ∧ i.Target b b.step.board.cpu.pc.toNat ∧
      b.step.board.cpu.stack.frames = i.framesAfter b ∧
      (∀ p, p ≠ .pc → p ∉ i.footprint b → b.AgreesAt b.step.board p) ∧
      (∀ p, p.fixed = true → p ≠ .pc → b.AgreesAt b.step.board p) ∧ notice = i.notice := by
  obtain ⟨i, hi⟩ := fetches_of_ok hrun hok
  obtain ⟨hnotice, htarget, hframes⟩ := flow_step_of_ok hrun hi hok
  refine ⟨i, hi, htarget, hframes, ?_, ?_, hnotice⟩
  · exact fun p hp hm => agreesAt_step_of_ok hrun hi hok hp hm
  · exact fun p hf hp => agreesAt_step_of_ok hrun hi hok hp (Part.not_mem_footprint b i hf)

theorem successful_step_frame_call :
    let b := loaded [0x22, 0x34]
    b.cpu.mode = .running ∧ b.step.outcome = .ok .nothing ∧
      b.step.board.cpu.pc.toNat = 0x234 ∧ b.step.board.cpu.stack.frames = [0x202] ∧
      ∀ p, p ≠ .pc → p ≠ .stack → b.AgreesAt b.step.board p := by
  intro b
  have hi : b.Fetches (.call 0x234) := fetches_loaded rfl
  have hok : b.step.outcome = .ok .nothing := by
    rw [step_of_fetches rfl hi]
    rfl
  obtain ⟨i, hi', htarget, hframes, hframe, _, _⟩ := successful_step_frame rfl hok
  obtain rfl := hi.unique hi'
  exact ⟨rfl, hok, htarget, hframes, hframe⟩

end Board

end ChipEight
