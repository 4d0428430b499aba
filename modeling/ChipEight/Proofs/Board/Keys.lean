import ChipEight.Proofs.Board.Footprint

namespace ChipEight

theorem Key.ofNat?_of_lt {n : Nat} (h : 15 < n) : Key.ofNat? n = .error (.noKey n) :=
  dif_neg (Nat.not_lt.2 h)

theorem Key.ofNat?_of_le {n : Nat} (h : n ≤ 15) :
    Key.ofNat? n = .ok ⟨n, Nat.lt_succ_of_le h⟩ :=
  dif_pos (Nat.lt_succ_of_le h)

def Part.timed : Part → Bool
  | delay | sound | tone => true
  | register _ | index | pc | stack | mode | start | random | memory _ | screen | keypad | broken
  | shutdown => false

def Part.keyed : Part → Bool
  | register _ | mode | keypad => true
  | index | pc | stack | delay | sound | start | random | memory _ | screen | tone | broken
  | shutdown => false

namespace Board

variable {b : Board} {p : Part}

theorem agreesAt_tick (b : Board) (hp : p.timed = false) : b.AgreesAt b.tick.1 p := by
  cases p with
  | delay | sound | tone => cases hp
  | _ => rfl

theorem agreesAt_keypad (b : Board) (keypad : Keypad) (hp : p ≠ .keypad) :
    b.AgreesAt { b with keypad } p := by
  cases p with
  | keypad => exact absurd rfl hp
  | _ => rfl

theorem handleKey_of_lt (b : Board) {key : Nat} (hno : 15 < key) (down : Bool) :
    b.handleKey ⟨key, down⟩ = { board := b, outcome := .error (.noKey key) } := by
  simp only [handleKey, Key.ofNat?_of_lt hno]

theorem pressOnCpu_of_lt (b : Board) {key : Nat} (hno : 15 < key) :
    b.pressOnCpu key = { board := b, outcome := .error (.noKey key) } := by
  simp only [pressOnCpu, Key.ofNat?_of_lt hno]

theorem handleKey_of_noKey (b : Board) {e : KeyEvent} (he : 15 < e.key) :
    (b.handleKey e).board = b := by
  simp only [handleKey, Key.ofNat?_of_lt he]

theorem handleKey_of_up (b : Board) {e : KeyEvent} (hkey : e.key ≤ 15) (hup : e.down = false) :
    b.handleKey e =
      { board := { b with keypad := b.keypad.put ⟨e.key, Nat.lt_succ_of_le hkey⟩ false }
        outcome := .ok ()
        log := [.keyMoved e] } := by
  simp [handleKey, Key.ofNat?_of_le hkey, hup]

theorem handleKey_of_down (b : Board) {e : KeyEvent} (hkey : e.key ≤ 15) (hdown : e.down = true) :
    b.handleKey e =
      { board :=
          { b with
            keypad := b.keypad.put ⟨e.key, Nat.lt_succ_of_le hkey⟩ true
            cpu := (b.cpu.press ⟨e.key, Nat.lt_succ_of_le hkey⟩).1 }
        outcome := .ok ()
        log := .keyMoved e :: (b.cpu.press ⟨e.key, Nat.lt_succ_of_le hkey⟩).2 } := by
  simp [handleKey, Key.ofNat?_of_le hkey, hdown]

theorem press_of_running {c : Cpu} (h : c.mode = .running) (key : Key) : c.press key = (c, []) := by
  rw [Cpu.press, h]

theorem press_of_awaiting {c : Cpu} {x : RegisterName} (h : c.mode = .awaitingKey x) (key : Key) :
    c.press key =
      ({ c.setRegister x (UInt8.ofNat key.val) with mode := .running },
        [.waitResolved key.val x]) := by
  rw [Cpu.press, h]

theorem agreesAt_press (b : Board) (key : Key) (hp : p.keyed = false) :
    b.AgreesAt { b with cpu := (b.cpu.press key).1 } p := by
  rcases hm : b.cpu.mode with _ | x
  · rw [press_of_running hm]
    exact .refl b p
  · rw [press_of_awaiting hm]
    cases p with
    | register | mode | keypad => cases hp
    | _ => rfl

theorem agreesAt_handleKey (b : Board) (e : KeyEvent) (hp : p.keyed = false) :
    b.AgreesAt (b.handleKey e).board p := by
  have hne : p ≠ .keypad := by
    rintro rfl
    cases hp
  rcases Nat.lt_or_ge 15 e.key with hno | hkey
  · rw [b.handleKey_of_noKey hno]
    exact .refl b p
  · cases hd : e.down with
    | true =>
      rw [b.handleKey_of_down hkey hd]
      exact (b.agreesAt_press _ hp).trans (agreesAt_keypad _ _ hne)
    | false =>
      rw [b.handleKey_of_up hkey hd]
      exact b.agreesAt_keypad _ hne

theorem agreesAt_handleKey_of_running (hrun : b.cpu.mode = .running) (e : KeyEvent) {p : Part}
    (hp : p ≠ .keypad) : b.AgreesAt (b.handleKey e).board p := by
  rcases Nat.lt_or_ge 15 e.key with hno | hkey
  · rw [b.handleKey_of_noKey hno]
    exact .refl b p
  · cases hd : e.down with
    | true =>
      rw [b.handleKey_of_down hkey hd, press_of_running hrun]
      exact b.agreesAt_keypad _ hp
    | false =>
      rw [b.handleKey_of_up hkey hd]
      exact b.agreesAt_keypad _ hp

theorem agreesAt_pressOnCpu (b : Board) (key : Nat) (hp : p.keyed = false) :
    b.AgreesAt (b.pressOnCpu key).board p := by
  unfold pressOnCpu
  split
  · exact .refl b p
  · exact b.agreesAt_press _ hp

theorem board_pressOnCpu_of_running (hrun : b.cpu.mode = .running) (key : Nat) :
    (b.pressOnCpu key).board = b := by
  unfold pressOnCpu
  split
  · rfl
  · rw [press_of_running hrun]

end Board

end ChipEight
