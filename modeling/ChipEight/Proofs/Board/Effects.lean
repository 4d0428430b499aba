import ChipEight.Board.Execution

namespace ChipEight

theorem Keypad.isDown_of_lt (k : Keypad) {n : Nat} (h : n < keyCount) :
    k.isDown n = .ok (k.get ⟨n, h⟩) := by
  simp [isDown, Key.ofNat?, h, Except.map]

theorem Keypad.isDown_of_le (k : Keypad) {n : Nat} (h : keyCount ≤ n) :
    k.isDown n = .error (.noKey n) := by
  simp [isDown, Key.ofNat?, Nat.not_lt.2 h, Except.map]

theorem CallStack.push_of_full {s : CallStack} {a : UInt16} (h : s.depth = stackSize) :
    s.push a = .error .stackFull :=
  dif_neg (Nat.not_lt.2 (Nat.le_of_eq h.symm))

theorem CallStack.push_of_room {s : CallStack} {a : UInt16} (h : s.depth < stackSize) :
    ∃ t : CallStack, t.frames = a :: s.frames ∧ s.push a = .ok t :=
  ⟨⟨a :: s.frames, h⟩, rfl, dif_pos h⟩

theorem CallStack.pop_of_empty {s : CallStack} (h : s.depth = 0) : s.pop = .error .stackEmpty := by
  obtain ⟨frames, _⟩ := s
  obtain rfl := List.length_eq_zero_iff.1 h
  rfl

theorem CallStack.pop_of_pos {s : CallStack} (h : 0 < s.depth) :
    ∃ (a : UInt16) (t : CallStack), s.frames = a :: t.frames ∧ s.pop = .ok (a, t) := by
  obtain ⟨frames, hle⟩ := s
  cases frames with
  | nil => exact absurd h (Nat.lt_irrefl 0)
  | cons a rest => exact ⟨a, ⟨rest, Nat.le_of_succ_le hle⟩, rfl, rfl⟩

namespace Board

theorem fits_eq_false_iff (b : Board) (count : Nat) :
    b.fits count = false ↔ 0 < count ∧ memorySize < b.cpu.index.toNat + count := by
  rw [fits, decide_eq_false_iff_not, Memory.room]
  omega

theorem fits_of_le {b : Board} {count : Nat} (h : b.cpu.index.toNat + count ≤ memorySize) :
    b.fits count = true := by
  rw [fits, decide_eq_true_iff, Memory.room]
  omega

theorem index_of_fits_succ {b : Board} {k : Nat} (h : b.fits (k + 1) = true) :
    b.cpu.index.toNat + k < memorySize := by
  rw [fits, decide_eq_true_iff, Memory.room] at h
  omega

theorem index_of_fits_only {b : Board} {k : Nat} (h : b.fits k = true)
    (hnext : b.fits (k + 1) = false) :
    memorySize ≤ b.cpu.index.toNat + k ∧
      b.overrun = .outOfRange (b.cpu.index.toNat + k) memorySize := by
  obtain ⟨_, hout⟩ := (b.fits_eq_false_iff _).1 hnext
  rw [fits, decide_eq_true_iff, Memory.room] at h
  have hedge : max b.cpu.index.toNat memorySize = b.cpu.index.toNat + k := by omega
  rw [overrun, Memory.overrun, hedge]
  exact ⟨by omega, rfl⟩

theorem fits_zero (b : Board) : b.fits 0 = true :=
  decide_eq_true (Nat.zero_le _)

theorem fits_eq_false_of_le {b : Board} {k n : Nat} (hle : k ≤ n) (h : b.fits k = false) :
    b.fits n = false := by
  rw [fits_eq_false_iff] at h ⊢
  omega

theorem requireRoom_of_fits {b changed : Board} {count : Nat} (h : b.fits count = true) :
    b.requireRoom count changed = changed.proceed :=
  if_pos h

theorem requireRoom_of_not_fits {b changed : Board} {count : Nat} (h : b.fits count = false) :
    b.requireRoom count changed = changed.abort b.overrun := by
  rw [requireRoom, h]
  rfl

def drawnScreen (b : Board) (x y : RegisterName) (rows : Nat) : Screen × Bool :=
  b.screen.flipSprite (b.cpu.register x).toNat (b.cpu.register y).toNat
    (b.memory.window b.cpu.index.toNat rows)

theorem drawSprite_of_fits {b : Board} {x y : RegisterName} {rows : Nat}
    (h : b.fits rows = true) :
    b.drawSprite x y rows =
      (({ b with screen := (b.drawnScreen x y rows).1 }).setFlag (b.drawnScreen x y rows).2).proceed
        .next .draw := by
  rw [drawSprite, h]
  rfl

theorem drawSprite_of_not_fits {b : Board} {x y : RegisterName} {rows : Nat}
    (h : b.fits rows = false) :
    b.drawSprite x y rows =
      ({ b with screen := (b.drawnScreen x y rows).1 }).abort b.overrun := by
  rw [drawSprite, h]
  rfl

theorem skip_of_ok {b : Board} {c : Condition} {met : Bool} (h : b.holds c = .ok met) :
    b.skip c = b.proceed (.skipIf met) := by
  rw [skip, h]

theorem skip_of_error {b : Board} {c : Condition} {f : Fault} (h : b.holds c = .error f) :
    b.skip c = b.abort f := by
  rw [skip, h]

theorem call_of_full {b : Board} (nnn : Location) (h : b.cpu.stack.depth = stackSize) :
    b.call nnn = b.abort .stackFull := by
  rw [call, CallStack.push_of_full h]

theorem call_of_room {b : Board} (nnn : Location) (h : b.cpu.stack.depth < stackSize) :
    ∃ stack : CallStack, stack.frames = Advance.next.apply b.cpu.pc :: b.cpu.stack.frames ∧
      b.call nnn = proceed { b with cpu := { b.cpu with stack } } (.jump nnn.address) := by
  obtain ⟨stack, hframes, hpush⟩ := CallStack.push_of_room h
  refine ⟨stack, hframes, ?_⟩
  rw [call, hpush]

theorem ret_of_empty {b : Board} (h : b.cpu.stack.depth = 0) : b.ret = b.abort .stackEmpty := by
  rw [ret, CallStack.pop_of_empty h]

theorem ret_of_pos {b : Board} (h : 0 < b.cpu.stack.depth) :
    ∃ (target : UInt16) (stack : CallStack), b.cpu.stack.frames = target :: stack.frames ∧
      b.ret =
        { proceed { b with cpu := { b.cpu with stack } } (.jump target) with
          log := [.returning target] } := by
  obtain ⟨target, stack, hframes, hpop⟩ := CallStack.pop_of_pos h
  refine ⟨target, stack, hframes, ?_⟩
  rw [ret, hpop]

theorem pointToGlyph_of_le {b : Board} {x : RegisterName}
    (h : (b.cpu.register x).toNat ≤ 15) :
    ∃ address, b.transfer x .pointToGlyph = (b.setIndex address).proceed := by
  have hglyph : Font.glyph (b.cpu.register x).toNat = .ok _ := if_pos (Nat.lt_succ_of_le h)
  exact ⟨_, by rw [transfer, hglyph]⟩

theorem pointToGlyph_of_lt {b : Board} {x : RegisterName} (h : 15 < (b.cpu.register x).toNat) :
    b.transfer x .pointToGlyph = b.abort (.noGlyph (b.cpu.register x).toNat) := by
  have hglyph : Font.glyph (b.cpu.register x).toNat = .error (.noGlyph (b.cpu.register x).toNat) :=
    if_neg (by omega)
  rw [transfer, hglyph]

theorem log_requireRoom (b changed : Board) (count : Nat) :
    (b.requireRoom count changed).log = [] := by
  unfold requireRoom
  split <;> rfl

theorem log_execute (b : Board) (i : Instruction) :
    (b.execute i).log = [] ∨ (∃ target, (b.execute i).log = [.returning target]) ∨
      ∃ x, (b.execute i).log = [.keyAwaited x] := by
  cases i with
  | ret =>
    rcases Nat.eq_zero_or_pos b.cpu.stack.depth with hempty | hpos
    · exact .inl (by rw [execute, ret_of_empty hempty]; rfl)
    · obtain ⟨target, stack, _, hret⟩ := ret_of_pos hpos
      exact .inr (.inl ⟨target, by rw [execute, hret]⟩)
  | call nnn =>
    simp only [execute, call]
    split <;> exact .inl rfl
  | skip c =>
    simp only [execute, skip]
    split <;> exact .inl rfl
  | draw x y n =>
    simp only [execute, drawSprite]
    split <;> exact .inl rfl
  | transfer op x =>
    cases op with
    | awaitKey => exact .inr (.inr ⟨x, rfl⟩)
    | pointToGlyph =>
      simp only [execute, transfer]
      split <;> exact .inl rfl
    | storeDigits | storeRegisters | loadRegisters => exact .inl (log_requireRoom _ _ _)
    | _ => exact .inl rfl
  | _ => exact .inl rfl

end Board

end ChipEight
