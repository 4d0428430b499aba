import ChipEight.Proofs.Board.Flow

namespace ChipEight

namespace Arithmetic

variable {op : Arithmetic}

def number (vx vy : Nat) : Arithmetic → Nat
  | assign => vy
  | or => vx ||| vy
  | and => vx &&& vy
  | xor => vx ^^^ vy
  | add => (vx + vy) % 256
  | subtract => (256 + vx - vy) % 256
  | shiftRight => vx / 2
  | subtractFrom => (256 + vy - vx) % 256
  | shiftLeft => 2 * vx % 256

def flagNumber (vx vy : Nat) : Arithmetic → Option Nat
  | assign | or | and | xor => none
  | add => some (if 255 < vx + vy then 1 else 0)
  | subtract => some (if vy < vx then 1 else 0)
  | shiftRight => some (vx % 2)
  | subtractFrom => some (if vx < vy then 1 else 0)
  | shiftLeft => some (vx / 128)

theorem toNat_fst_result (op : Arithmetic) (vx vy : UInt8) :
    (op.result vx vy).1.toNat = op.number vx.toNat vy.toNat := by
  have hx := vx.toNat_lt
  have hy := vy.toNat_lt
  cases op with
  | assign => rfl
  | or => exact UInt8.toNat_or vx vy
  | and => exact UInt8.toNat_and vx vy
  | xor => exact UInt8.toNat_xor vx vy
  | add => exact UInt8.toNat_add vx vy
  | subtract | subtractFrom =>
    rw [result, number, UInt8.toNat_sub]
    omega
  | shiftRight =>
    rw [result, number, UInt8.toNat_shiftRight]
    exact Nat.shiftRight_eq_div_pow vx.toNat 1
  | shiftLeft =>
    rw [result, number, UInt8.toNat_shiftLeft, Nat.shiftLeft_eq, Nat.mul_comm]
    rfl

theorem toNat_decide (p : Prop) [Decidable p] : (decide p).toNat = if p then 1 else 0 :=
  Bool.cond_decide p 1 0

theorem map_snd_result (op : Arithmetic) (vx vy : UInt8) :
    (op.result vx vy).2.map Bool.toNat = op.flagNumber vx.toNat vy.toNat := by
  have hx := vx.toNat_lt
  cases op with
  | assign | or | and | xor => rfl
  | add => exact congrArg some (toNat_decide _)
  | subtract | subtractFrom =>
    simp [result, flagNumber, toNat_decide, UInt8.lt_iff_toNat_lt]
  | shiftRight =>
    rw [result, flagNumber, Option.map_some, Nat.toNat_testBit, Nat.pow_zero, Nat.div_one]
  | shiftLeft =>
    rw [result, flagNumber, Option.map_some, Nat.toNat_testBit]
    congr 1
    omega

end Arithmetic

theorem toNat_toUInt8 (flag : Bool) : flag.toUInt8.toNat = flag.toNat := by
  cases flag <;> rfl

namespace Board

variable {b : Board} {op : Arithmetic} {x y : RegisterName}

theorem toNat_register_combine (b : Board) (op : Arithmetic) (x y z : RegisterName) :
    let vx := (b.cpu.register x).toNat
    let vy := (b.cpu.register y).toNat
    let written := if x = z then op.number vx vy else (b.cpu.register z).toNat
    ((b.combine op x y).cpu.register z).toNat =
      if z = 0xF then (op.flagNumber vx vy).getD written else written := by
  intro vx vy written
  have hvalue := op.toNat_fst_result (b.cpu.register x) (b.cpu.register y)
  have hflag := op.map_snd_result (b.cpu.register x) (b.cpu.register y)
  have hwritten {value : UInt8} (h : value.toNat = op.number vx vy) :
      ((b.setRegister x value).cpu.register z).toNat = written := by
    rw [setRegister, Cpu.register_setRegister, apply_ite UInt8.toNat, h]
  rw [combine]
  generalize op.result (b.cpu.register x) (b.cpu.register y) = r at hvalue hflag
  obtain ⟨value, flag⟩ := r
  rw [← hflag, ← hwritten hvalue]
  cases flag with
  | none => exact (ite_self _).symm
  | some flag =>
    change (((b.setRegister x value).cpu.setRegister 0xF flag.toUInt8).register z).toNat = _
    rw [Cpu.register_setRegister, apply_ite UInt8.toNat, toNat_toUInt8]
    simp only [eq_comm]
    rfl

theorem step_of_arithmetic (hrun : b.cpu.mode = .running) (hi : b.Fetches (.arithmetic op x y)) :
    b.step.outcome = .ok .nothing ∧
      ∀ z, b.step.board.cpu.register z = (b.combine op x y).cpu.register z := by
  rw [step_of_fetches hrun hi]
  exact ⟨rfl, fun _ => rfl⟩

theorem registers_combine_with_flag (hrun : b.cpu.mode = .running)
    (hi : b.Fetches (.arithmetic op x y)) :
    let vx := (b.cpu.register x).toNat
    let vy := (b.cpu.register y).toNat
    let after := b.step.board.cpu
    let value := (after.register x).toNat
    let flag := (after.register 0xF).toNat
    b.step.outcome = .ok .nothing ∧
      (∀ n, op.flagNumber vx vy = some n → flag = n) ∧
      (x ≠ 0xF ∨ op.flagNumber vx vy = none → value = op.number vx vy) ∧
      (∀ z, z ≠ x → z ≠ 0xF ∨ op.flagNumber vx vy = none →
        after.register z = b.cpu.register z) ∧
      (x ≠ 0xF →
        (op = .add → 256 * flag + value = vx + vy) ∧
        (op = .shiftLeft → 256 * flag + value = 2 * vx) ∧
        (op = .shiftRight → 2 * value + flag = vx)) := by
  intro vx vy after value flag
  have hbyte : vx < 256 ∧ vy < 256 := ⟨UInt8.toNat_lt _, UInt8.toNat_lt _⟩
  obtain ⟨hok, hregisters⟩ := step_of_arithmetic hrun hi
  have hwritten (z : RegisterName) := b.toNat_register_combine op x y z
  simp only [← hregisters] at hwritten
  have hflag : ∀ n, op.flagNumber vx vy = some n → flag = n := fun n hn => by
    refine (hwritten 0xF).trans ?_
    rw [if_pos rfl, hn, Option.getD_some]
  have hkept : ∀ z, z ≠ 0xF ∨ op.flagNumber vx vy = none → (after.register z).toNat =
      if x = z then op.number vx vy else (b.cpu.register z).toNat := fun z hz => by
    refine (hwritten z).trans ?_
    rcases hz with hz | hz
    · rw [if_neg hz]
    · rw [hz, Option.getD_none, ite_self]
  have hvalue : x ≠ 0xF ∨ op.flagNumber vx vy = none → value = op.number vx vy := fun hx =>
    (hkept x hx).trans (if_pos rfl)
  refine ⟨hok, hflag, hvalue, fun z hne hz => ?_, fun hx => ⟨?_, ?_, ?_⟩⟩
  · exact UInt8.toNat_inj.1 ((hkept z hz).trans (if_neg hne.symm))
  · rintro rfl
    have hcarry := hflag _ rfl
    have hsum := hvalue (.inl hx)
    rw [Arithmetic.number] at hsum
    split at hcarry <;> omega
  · rintro rfl
    have hcarry := hflag _ rfl
    have hdouble := hvalue (.inl hx)
    rw [Arithmetic.number] at hdouble
    omega
  · rintro rfl
    have hcarry := hflag _ rfl
    have hhalf := hvalue (.inl hx)
    rw [Arithmetic.number] at hhalf
    omega

theorem registers_combine_with_flag_aliased :
    let b := ((loaded [0x8F, 0x14]).setRegister 0xF 200).setRegister 1 100
    let b' := ((loaded [0x81, 0xF4]).setRegister 0xF 200).setRegister 1 100
    (b.cpu.mode = .running ∧ b.Fetches (.arithmetic .add 0xF 1)) ∧
      (b'.cpu.mode = .running ∧ b'.Fetches (.arithmetic .add 1 0xF)) ∧
      (b.step.board.cpu.register 0xF).toNat = 1 ∧ b.step.board.cpu.register 1 = 100 ∧
      (b'.step.board.cpu.register 0xF).toNat = 1 ∧ (b'.step.board.cpu.register 1).toNat = 44 := by
  intro b b'
  have hloaded : (loaded [0x8F, 0x14]).Fetches (.arithmetic .add 0xF 1) := fetches_loaded rfl
  have hloaded' : (loaded [0x81, 0xF4]).Fetches (.arithmetic .add 1 0xF) := fetches_loaded rfl
  have hi : b.Fetches (.arithmetic .add 0xF 1) := hloaded.congr rfl rfl
  have hi' : b'.Fetches (.arithmetic .add 1 0xF) := hloaded'.congr rfl rfl
  obtain ⟨_, hflag, _, hkept, _⟩ := registers_combine_with_flag rfl hi
  obtain ⟨_, hflag', hvalue', _⟩ := registers_combine_with_flag rfl hi'
  have hsum : (b'.step.board.cpu.register 1).toNat = Arithmetic.add.number 100 200 :=
    hvalue' (.inl (by decide))
  exact ⟨⟨rfl, hi⟩, ⟨rfl, hi'⟩, hflag 1 rfl, hkept 1 (by decide) (.inl (by decide)),
    hflag' 1 rfl, hsum⟩

end Board

end ChipEight
