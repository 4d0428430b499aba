import ChipEight.Proofs.Board.Effects
import Mathlib.Data.Set.Insert

namespace ChipEight

inductive Part where
  | register (x : RegisterName)
  | index
  | pc
  | stack
  | delay
  | sound
  | mode
  | start
  | random
  | memory (a : Nat)
  | screen
  | tone
  | keypad
  | broken
  | shutdown
  deriving DecidableEq, Repr

namespace Board

def AgreesAt (b b' : Board) : Part → Prop
  | .register x => b'.cpu.register x = b.cpu.register x
  | .index => b'.cpu.index = b.cpu.index
  | .pc => b'.cpu.pc = b.cpu.pc
  | .stack => b'.cpu.stack = b.cpu.stack
  | .delay => b'.cpu.delay = b.cpu.delay
  | .sound => b'.cpu.sound = b.cpu.sound
  | .mode => b'.cpu.mode = b.cpu.mode
  | .start => b'.cpu.start = b.cpu.start
  | .random => b'.cpu.random = b.cpu.random
  | .memory a => b'.memory.get a = b.memory.get a
  | .screen => b'.screen = b.screen
  | .tone => b'.tone = b.tone
  | .keypad => b'.keypad = b.keypad
  | .broken => b'.broken = b.broken
  | .shutdown => b'.shutdown = b.shutdown

theorem AgreesAt.refl (b : Board) (p : Part) : b.AgreesAt b p := by
  cases p <;> rfl

theorem AgreesAt.trans {b b' b'' : Board} {p : Part} (h : b.AgreesAt b' p)
    (h' : b'.AgreesAt b'' p) : b.AgreesAt b'' p := by
  cases p <;> exact Eq.trans h' h

theorem agreesAt_setRegister (b : Board) (x : RegisterName) (value : UInt8) {p : Part}
    (h : p ≠ .register x) : b.AgreesAt (b.setRegister x value) p := by
  cases p with
  | register y =>
    have hne : x ≠ y := by
      rintro rfl
      exact h rfl
    exact (b.cpu.register_setRegister x y value).trans (if_neg hne)
  | _ => rfl

theorem agreesAt_setFlag (b : Board) (flag : Bool) {p : Part} (h : p ≠ .register 0xF) :
    b.AgreesAt (b.setFlag flag) p :=
  b.agreesAt_setRegister 0xF flag.toUInt8 h

theorem agreesAt_setIndex (b : Board) (index : UInt16) {p : Part} (h : p ≠ .index) :
    b.AgreesAt (b.setIndex index) p := by
  cases p with
  | index => exact absurd rfl h
  | _ => rfl

theorem agreesAt_screen (b : Board) (screen : Screen) {p : Part} (h : p ≠ .screen) :
    b.AgreesAt { b with screen } p := by
  cases p with
  | screen => exact absurd rfl h
  | _ => rfl

theorem agreesAt_stack (b : Board) (stack : CallStack) {p : Part} (h : p ≠ .stack) :
    b.AgreesAt { b with cpu := { b.cpu with stack } } p := by
  cases p with
  | stack => exact absurd rfl h
  | _ => rfl

theorem agreesAt_setBroken (b : Board) (value : Bool) {p : Part} (h : p ≠ .broken) :
    b.AgreesAt (b.setBroken value) p := by
  cases p with
  | broken => exact absurd rfl h
  | _ => rfl

def stretch (b : Board) (count : Nat) : Set Part :=
  { p | ∃ a, p = .memory a ∧ b.cpu.index.toNat ≤ a ∧ a < b.cpu.index.toNat + count }

theorem stretch_mono (b : Board) {m n : Nat} (h : m ≤ n) : b.stretch m ⊆ b.stretch n := by
  rintro p ⟨a, rfl, hle, hlt⟩
  exact ⟨a, rfl, hle, by omega⟩

theorem agreesAt_storeAtIndex (b : Board) (data : List UInt8) {p : Part}
    (h : p ∉ b.stretch (min data.length (Memory.room b.cpu.index.toNat))) :
    b.AgreesAt (b.storeAtIndex data) p := by
  cases p with
  | memory a =>
    refine (b.memory.get_store _ a data).trans (if_neg ?_)
    rintro ⟨hle, hlt, ha⟩
    exact h ⟨a, rfl, hle, by rw [Memory.room]; omega⟩
  | _ => rfl

theorem register_fillRegisters (b : Board) (values : List UInt8) (x : RegisterName) :
    (b.fillRegisters values).cpu.register x = values.getD x.val (b.cpu.register x) := by
  simp [fillRegisters, Cpu.register]

theorem agreesAt_fillRegisters (b : Board) (values : List UInt8) {p : Part}
    (h : ∀ x : RegisterName, x.val < values.length → p ≠ .register x) :
    b.AgreesAt (b.fillRegisters values) p := by
  cases p with
  | register y =>
    have hy : values.length ≤ y.val := by
      by_contra hlt
      exact h y (by omega) rfl
    refine (b.register_fillRegisters values y).trans ?_
    simp [hy]
  | _ => rfl

end Board

def Arithmetic.setsFlag : Arithmetic → Bool
  | assign | or | and | xor => false
  | add | subtract | shiftRight | subtractFrom | shiftLeft => true

def Transfer.footprint (b : Board) (x : RegisterName) : Transfer → Set Part
  | readDelay => {.register x}
  | awaitKey => {.mode}
  | setDelay => {.delay}
  | setSound => {.sound}
  | addToIndex | pointToGlyph => {.index}
  | storeDigits => b.stretch 3
  | storeRegisters => insert .index (b.stretch (x.val + 1))
  | loadRegisters => insert .index { p | ∃ y ≤ x, p = .register y }

def Instruction.footprint (b : Board) : Instruction → Set Part
  | clear => {.screen}
  | ret | call _ => {.stack}
  | jump _ | skip _ | jumpOffset _ => ∅
  | load x _ | add x _ => {.register x}
  | arithmetic op x _ => { p | p = .register x ∨ op.setsFlag = true ∧ p = .register 0xF }
  | loadIndex _ => {.index}
  | random x _ => {.register x, .random}
  | draw .. => {.screen, .register 0xF}
  | transfer op x => op.footprint b x

def Part.fixed : Part → Bool
  | pc | start | tone | keypad | broken | shutdown => true
  | register _ | index | stack | delay | sound | mode | random | memory _ | screen => false

def Part.transferred : Part → Bool
  | register _ | index | delay | sound | mode | memory _ => true
  | pc | stack | start | random | screen | tone | keypad | broken | shutdown => false

theorem Part.transferred_of_mem {b : Board} {x : RegisterName} {op : Transfer} {p : Part}
    (h : p ∈ op.footprint b x) : p.transferred = true := by
  cases op with
  | readDelay | awaitKey | setDelay | setSound | addToIndex | pointToGlyph =>
    obtain rfl := h
    rfl
  | storeDigits =>
    obtain ⟨a, rfl, _⟩ := h
    rfl
  | storeRegisters =>
    obtain rfl | ⟨a, rfl, _⟩ := h <;> rfl
  | loadRegisters =>
    obtain rfl | ⟨y, _, rfl⟩ := h <;> rfl

theorem Part.not_transferred {p : Part} (h : p.fixed = true) : p.transferred = false := by
  cases p with
  | pc | start | tone | keypad | broken | shutdown => rfl
  | _ => cases h

theorem Part.not_mem_footprint (b : Board) (i : Instruction) {p : Part} (h : p.fixed = true) :
    p ∉ i.footprint b := by
  intro hm
  cases i with
  | clear | ret | call nnn | load x nn | add x nn | loadIndex nnn =>
    obtain rfl := hm
    cases h
  | jump nnn | skip c | jumpOffset nnn => exact hm
  | arithmetic op x y =>
    obtain rfl | ⟨_, rfl⟩ := hm <;> cases h
  | random x nn | draw x y n =>
    obtain rfl | rfl := hm <;> cases h
  | transfer op x =>
    have ht := transferred_of_mem hm
    rw [not_transferred h] at ht
    cases ht

namespace Board

theorem board_requireRoom (b : Board) (count : Nat) (changed : Board) :
    (b.requireRoom count changed).board = changed := by
  cases h : b.fits count with
  | true => rw [requireRoom_of_fits h, proceed]
  | false => rw [requireRoom_of_not_fits h, abort]

theorem board_skip (b : Board) (c : Condition) : (b.skip c).board = b := by
  cases h : b.holds c with
  | ok met => rw [skip_of_ok h, proceed]
  | error f => rw [skip_of_error h, abort]

theorem agreesAt_combine (b : Board) (op : Arithmetic) (x y : RegisterName) {p : Part}
    (h : p ∉ (Instruction.arithmetic op x y).footprint b) : b.AgreesAt (b.combine op x y) p := by
  have hx : p ≠ .register x := fun he => h (.inl he)
  cases op with
  | assign | or | and | xor => exact b.agreesAt_setRegister x _ hx
  | add | subtract | shiftRight | subtractFrom | shiftLeft =>
    have hf : p ≠ .register 0xF := fun he => h (.inr ⟨rfl, he⟩)
    exact (b.agreesAt_setRegister x _ hx).trans (agreesAt_setFlag _ _ hf)

theorem agreesAt_randomize (b : Board) (x : RegisterName) (mask : UInt8) {p : Part}
    (hx : p ≠ .register x) (hr : p ≠ .random) : b.AgreesAt (b.randomize x mask) p := by
  cases p with
  | register y => exact b.agreesAt_setRegister x _ hx
  | random => exact absurd rfl hr
  | _ => rfl

theorem agreesAt_drawSprite (b : Board) (x y : RegisterName) (rows : Nat) {p : Part}
    (hs : p ≠ .screen) (hf : p ≠ .register 0xF) :
    b.AgreesAt (b.drawSprite x y rows).board p := by
  cases h : b.fits rows with
  | true =>
    rw [drawSprite_of_fits h]
    exact (b.agreesAt_screen _ hs).trans (agreesAt_setFlag _ _ hf)
  | false =>
    rw [drawSprite_of_not_fits h]
    exact b.agreesAt_screen _ hs

theorem agreesAt_call (b : Board) (nnn : Location) {p : Part} (h : p ≠ .stack) :
    b.AgreesAt (b.call nnn).board p := by
  rcases Nat.lt_or_eq_of_le b.cpu.stack.depth_le with hroom | hfull
  · obtain ⟨stack, _, hcall⟩ := call_of_room nnn hroom
    rw [hcall]
    exact b.agreesAt_stack _ h
  · rw [call_of_full nnn hfull]
    exact .refl b p

theorem agreesAt_ret (b : Board) {p : Part} (h : p ≠ .stack) : b.AgreesAt b.ret.board p := by
  rcases Nat.eq_zero_or_pos b.cpu.stack.depth with hempty | hpos
  · rw [ret_of_empty hempty]
    exact .refl b p
  · obtain ⟨target, stack, _, hret⟩ := ret_of_pos hpos
    rw [hret]
    exact b.agreesAt_stack _ h

theorem length_firstRegisters (b : Board) (x : RegisterName) :
    (b.firstRegisters x).length = x.val + 1 := by
  rw [firstRegisters, List.length_take, Vector.length_toList]
  exact Nat.min_eq_left x.isLt

theorem agreesAt_storeRegisters (b : Board) (x : RegisterName) {p : Part}
    (h : p ∉ Transfer.storeRegisters.footprint b x) :
    b.AgreesAt (b.storeRegisters x).board p := by
  have hi : p ≠ .index := fun he => h (.inl he)
  have hm : p ∉ b.stretch (min (b.firstRegisters x).length (Memory.room b.cpu.index.toNat)) := by
    rw [length_firstRegisters]
    exact fun hp => h (.inr (b.stretch_mono (Nat.min_le_left _ _) hp))
  rw [storeRegisters, board_requireRoom]
  exact (b.agreesAt_storeAtIndex _ hm).trans (agreesAt_setIndex _ _ hi)

theorem agreesAt_loadRegisters (b : Board) (x : RegisterName) {p : Part}
    (h : p ∉ Transfer.loadRegisters.footprint b x) :
    b.AgreesAt (b.loadRegisters x).board p := by
  have hi : p ≠ .index := fun he => h (.inl he)
  rw [loadRegisters, board_requireRoom]
  refine (b.agreesAt_fillRegisters _ ?_).trans (agreesAt_setIndex _ _ hi)
  rintro y hy rfl
  rw [Memory.length_window] at hy
  exact h (.inr ⟨y, Fin.le_def.2 (by omega), rfl⟩)

theorem agreesAt_transfer (b : Board) (x : RegisterName) (op : Transfer) {p : Part}
    (h : p ∉ op.footprint b x) : b.AgreesAt (b.transfer x op).board p := by
  cases op with
  | readDelay => exact b.agreesAt_setRegister x _ h
  | awaitKey =>
    cases p with
    | mode => exact absurd rfl h
    | _ => rfl
  | setDelay =>
    cases p with
    | delay => exact absurd rfl h
    | _ => rfl
  | setSound =>
    cases p with
    | sound => exact absurd rfl h
    | _ => rfl
  | addToIndex => exact b.agreesAt_setIndex _ h
  | pointToGlyph =>
    rcases Nat.lt_or_ge 15 (b.cpu.register x).toNat with hlarge | hdigit
    · rw [pointToGlyph_of_lt hlarge]
      exact .refl b p
    · obtain ⟨address, hpoint⟩ := pointToGlyph_of_le hdigit
      rw [hpoint]
      exact b.agreesAt_setIndex _ h
  | storeDigits =>
    rw [transfer, storeDigits, board_requireRoom]
    exact b.agreesAt_storeAtIndex _ fun hp => h (b.stretch_mono (Nat.min_le_left _ _) hp)
  | storeRegisters => exact b.agreesAt_storeRegisters x h
  | loadRegisters => exact b.agreesAt_loadRegisters x h

theorem agreesAt_execute (b : Board) (i : Instruction) {p : Part} (h : p ∉ i.footprint b) :
    b.AgreesAt (b.execute i).board p := by
  cases i with
  | clear => exact b.agreesAt_screen _ h
  | ret => exact b.agreesAt_ret h
  | jump nnn | jumpOffset nnn => exact .refl b p
  | call nnn => exact b.agreesAt_call nnn h
  | skip c =>
    rw [execute, board_skip]
    exact .refl b p
  | load x nn | add x nn => exact b.agreesAt_setRegister x _ h
  | arithmetic op x y => exact b.agreesAt_combine op x y h
  | loadIndex nnn => exact b.agreesAt_setIndex _ h
  | random x nn => exact b.agreesAt_randomize x nn (fun he => h (.inl he)) (fun he => h (.inr he))
  | draw x y n =>
    exact b.agreesAt_drawSprite x y n.val (fun he => h (.inl he)) (fun he => h (.inr he))
  | transfer op x => exact b.agreesAt_transfer x op h

end Board

end ChipEight
