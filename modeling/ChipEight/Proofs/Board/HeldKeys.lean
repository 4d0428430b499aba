import ChipEight.Proofs.Board.Executions
import ChipEight.Proofs.Board.Operations
import ChipEight.Proofs.Since

namespace ChipEight

def HeldDown (key : Nat) (history : List Operation) : Prop :=
  Since (fun _ op => op = .board (.key ⟨key, true⟩))
    (fun op => op ≠ .board .reset ∧ op ≠ .board (.key ⟨key, false⟩)) history

def Operation.moves (key : Key) : Operation → Option Bool
  | .board (.key e) => if e.key = key.val then some e.down else none
  | .board .reset => some false
  | .board _ | .screen _ | .setPc _ => none

namespace Board

variable {b : Board} {key : Key} {x : RegisterName}

theorem keypad_handleKey (b : Board) {e : KeyEvent} (hkey : e.key ≤ 15) :
    (b.handleKey e).board.keypad = b.keypad.put ⟨e.key, Nat.lt_succ_of_le hkey⟩ e.down := by
  cases hd : e.down with
  | true => rw [b.handleKey_of_down hkey hd]
  | false => rw [b.handleKey_of_up hkey hd]

theorem get_handleKey (b : Board) (e : KeyEvent) (key : Key) :
    (b.handleKey e).board.keypad.get key =
      if e.key = key.val then e.down else b.keypad.get key := by
  have hlt : key.val < 16 := key.isLt
  rcases Nat.lt_or_ge 15 e.key with hno | hkey
  · rw [b.handleKey_of_noKey hno, if_neg (by omega)]
  · rw [b.keypad_handleKey hkey, Keypad.get_put]
    simp only [Fin.ext_iff]

theorem keypad_pressOnCpu (b : Board) (key : Nat) : (b.pressOnCpu key).board.keypad = b.keypad := by
  unfold pressOnCpu
  split <;> rfl

theorem get_operate (b : Board) (op : Operation) (key : Key) :
    (b.operate op).keypad.get key = (op.moves key).getD (b.keypad.get key) := by
  cases op with
  | screen c | setPc pc => rfl
  | board c =>
    cases c with
    | step =>
      refine congrArg (Keypad.get · key) ?_
      exact agreesAt_step_of_executed (p := .keypad) rfl nofun fun i _ =>
        Part.not_mem_footprint b i rfl
    | key e =>
      refine (b.get_handleKey e key).trans ?_
      rw [Operation.moves]
      split <;> rfl
    | keyOnCpu k => exact congrArg (Keypad.get · key) (b.keypad_pressOnCpu k)
    | setRegister x value =>
      exact congrArg (Keypad.get · key) (b.agreesAt_writeRegister (p := .keypad) x value nofun)
    | reset => exact Vector.getElem_replicate key.isLt
    | _ => rfl

theorem get_operate_iff (b : Board) (op : Operation) (key : Key) :
    (b.operate op).keypad.get key = true ↔
      op = .board (.key ⟨key, true⟩) ∨
        (op ≠ .board .reset ∧ op ≠ .board (.key ⟨key, false⟩)) ∧ b.keypad.get key = true := by
  rw [get_operate]
  cases op with
  | screen c | setPc pc => simp [Operation.moves]
  | board c =>
    cases c with
    | key e =>
      obtain ⟨k, down⟩ := e
      rw [Operation.moves]
      by_cases hk : k = key.val
      · cases down <;> simp [hk]
      · simp [hk]
    | _ => simp [Operation.moves]

theorem get_afterAll_iff (hup : b.keypad.get key = false) (history : List Operation) :
    (b.afterAll history).keypad.get key = true ↔ HeldDown key.val history := by
  induction history using List.reverseRecOn with
  | nil => exact iff_of_false (fun hdown => absurd (hup.symm.trans hdown) nofun) not_since_nil
  | append_singleton history op ih =>
    rw [HeldDown, since_snoc_iff, ← HeldDown, ← ih, afterAll, List.foldl_append]
    exact get_operate_iff _ op key

def MovesOn (b : Board) (distance : Nat) : Prop :=
  b.step.outcome = .ok .nothing ∧ b.step.board.cpu.pc.toNat = b.cpu.pc.toNat + distance

theorem movesOn_of_skip {c : Condition} (hrun : b.cpu.mode = .running)
    (hi : b.Fetches (.skip c)) (hn : ∀ f, ¬(Instruction.skip c).Faults b f) :
    (c.Holds b → b.MovesOn 4) ∧ (¬c.Holds b → b.MovesOn 2) := by
  obtain ⟨_, _, _, notice, hok⟩ := executed_eq_some_iff.1 (executed_of_not_faults hrun hi hn)
  obtain ⟨rfl, htarget, _⟩ := flow_step_of_ok hrun hi hok
  refine ⟨fun hholds => ⟨hok, ?_⟩, fun hfails => ⟨hok, ?_⟩⟩
  · obtain ⟨_, hpc⟩ | ⟨hfails, _⟩ := htarget
    · exact hpc
    · exact absurd hholds hfails
  · obtain ⟨hholds, _⟩ | ⟨_, hpc⟩ := htarget
    · exact absurd hholds hfails
    · exact hpc

theorem movesOn_of_keyDown (hrun : b.cpu.mode = .running) (hkey : (b.cpu.register x).toNat ≤ 15)
    (hi : b.Fetches (.skip (.keyDown x))) {down : Bool}
    (hdown : b.keypad.isDown (b.cpu.register x).toNat = .ok down) :
    b.MovesOn (if down then 4 else 2) := by
  obtain ⟨hskips, hstays⟩ := movesOn_of_skip hrun hi fun f hf => by
    cases hf with
    | keyDown h => omega
  cases down with
  | true => exact hskips hdown
  | false => exact hstays fun hholds => absurd (hdown.symm.trans hholds) nofun

theorem movesOn_of_keyUp (hrun : b.cpu.mode = .running) (hkey : (b.cpu.register x).toNat ≤ 15)
    (hi : b.Fetches (.skip (.keyUp x))) {down : Bool}
    (hdown : b.keypad.isDown (b.cpu.register x).toNat = .ok down) :
    b.MovesOn (if down then 2 else 4) := by
  obtain ⟨hskips, hstays⟩ := movesOn_of_skip hrun hi fun f hf => by
    cases hf with
    | keyUp h => omega
  cases down with
  | true => exact hstays fun hholds => absurd (hdown.symm.trans hholds) nofun
  | false => exact hskips hdown

theorem isDown_afterAll (kind : ToneKind) (start : UInt16) (random : RandomSource)
    (history : List Operation) {n : Nat} (hn : n ≤ 15) :
    ∃ down, ((powerOn kind start random).afterAll history).keypad.isDown n = .ok down ∧
      (down = true ↔ HeldDown n history) := by
  refine ⟨_, Keypad.isDown_of_lt _ (Nat.lt_succ_of_le hn), get_afterAll_iff ?_ history⟩
  exact Vector.getElem_replicate (Nat.lt_succ_of_le hn)

/-- The memory is any, so that at one state each of the two skips can be the instruction that stands
at the program counter. -/
theorem keypad_shows_last_events :
    (∀ (kind : ToneKind) (start : UInt16) (random : RandomSource) (history : List Operation)
      (key : Nat), key ≤ 15 →
      ∃ down, ((powerOn kind start random).afterAll history).keypad.isDown key = .ok down ∧
        (down = true ↔ HeldDown key history)) ∧
    (∀ (b : Board) (key : Nat), 15 < key →
      (∀ down, b.handleKey ⟨key, down⟩ = { board := b, outcome := .error (.noKey key) }) ∧
        b.pressOnCpu key = { board := b, outcome := .error (.noKey key) }) ∧
    ∀ (kind : ToneKind) (start : UInt16) (random : RandomSource) (history : List Operation)
      (memory : Memory) (x : RegisterName),
      let b : Board := { (powerOn kind start random).afterAll history with memory }
      let held := HeldDown (b.cpu.register x).toNat history
      b.cpu.mode = .running → (b.cpu.register x).toNat ≤ 15 →
      (b.Fetches (.skip (.keyDown x)) → (held → b.MovesOn 4) ∧ (¬held → b.MovesOn 2)) ∧
        (b.Fetches (.skip (.keyUp x)) → (held → b.MovesOn 2) ∧ (¬held → b.MovesOn 4)) := by
  refine ⟨fun kind start random history key hkey => isDown_afterAll kind start random history hkey,
    fun b key hno => ⟨b.handleKey_of_lt hno, b.pressOnCpu_of_lt hno⟩, ?_⟩
  intro kind start random history memory x b held hrun hkey
  obtain ⟨down, hdown, hheld⟩ := isDown_afterAll kind start random history hkey
  cases down with
  | true =>
    have hyes : held := hheld.1 rfl
    exact ⟨fun hi => ⟨fun _ => movesOn_of_keyDown hrun hkey hi hdown, fun hno => absurd hyes hno⟩,
      fun hi => ⟨fun _ => movesOn_of_keyUp hrun hkey hi hdown, fun hno => absurd hyes hno⟩⟩
  | false =>
    have hno : ¬held := fun hyes => absurd (hheld.2 hyes) nofun
    exact ⟨fun hi => ⟨fun hyes => absurd hyes hno, fun _ => movesOn_of_keyDown hrun hkey hi hdown⟩,
      fun hi => ⟨fun hyes => absurd hyes hno, fun _ => movesOn_of_keyUp hrun hkey hi hdown⟩⟩

theorem keypad_shows_last_events_kept :
    let load : Operation := .board (.loadProgram [0x63, 0x07, 0xE3, 0x9E])
    let press : Operation := .board (.key ⟨7, true⟩)
    let history : List Operation :=
      [load, press, .board .resetCpu, .board (.key ⟨23, false⟩), .board .step, .board .tick]
    let b := (powerOn .shared 0x200 (.cycle [171])).afterAll history
    (b.cpu.mode = .running ∧ (b.cpu.register 3).toNat = 7 ∧ b.Fetches (.skip (.keyDown 3))) ∧
      HeldDown 7 history ∧ b.MovesOn 4 := by
  intro load press history b
  obtain ⟨hrun, hseven, hinside, hword⟩ : b.cpu.mode = .running ∧
      (b.cpu.register 3).toNat = 7 ∧ b.cpu.pc.toNat + 1 < memorySize ∧
      (Instruction.skip (.keyDown 3)).word = b.wordAtPc := by
    decide +kernel
  have hi : b.Fetches (.skip (.keyDown 3)) := ⟨hinside, hword⟩
  have hheld : HeldDown 7 history := by
    refine ⟨[load], press,
      [.board .resetCpu, .board (.key ⟨23, false⟩), .board .step, .board .tick],
      rfl, rfl, ?_⟩
    simp
  have hkey : (b.cpu.register 3).toNat ≤ 15 := by omega
  refine ⟨⟨hrun, hseven, hi⟩, hheld, ?_⟩
  rw [← hseven] at hheld
  obtain ⟨_, _, hskips⟩ := keypad_shows_last_events
  have hmoves := hskips .shared 0x200 (.cycle [171]) history b.memory 3
  have hb : (powerOn .shared 0x200 (.cycle [171])).afterAll history = b := rfl
  rw [hb] at hmoves
  clear_value b
  exact ((hmoves hrun hkey).1 hi).1 hheld

end Board

end ChipEight
