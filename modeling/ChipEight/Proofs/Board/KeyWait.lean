import ChipEight.Proofs.Board.Executions
import ChipEight.Proofs.Since
import Mathlib.Data.List.Induction

namespace ChipEight

def Part.ambient : Part → Bool
  | delay | sound | tone | keypad => true
  | register _ | index | pc | stack | mode | start | random | memory _ | screen | broken
  | shutdown => false

def Command.passive : Command → Bool
  | step | tick => true
  | key e => !e.down || decide (15 < e.key)
  | keyOnCpu _ | load .. | loadProgram _ | loadRom _ | setRegister .. | setIndex _ | setBroken _
  | setShutdown _ | setScreen _ | reset | resetCpu => false

namespace Board

variable {b : Board} {x : RegisterName} {c : Command}

theorem mode_writeRegister (b : Board) (y : Nat) (value : UInt8) :
    (b.writeRegister y value).cpu.mode = b.cpu.mode :=
  b.agreesAt_writeRegister (p := .mode) y value nofun

theorem mode_step_of_ok {i : Instruction} {notice : Notice} (hrun : b.cpu.mode = .running)
    (hi : b.Fetches i) (hok : b.step.outcome = .ok notice) :
    b.step.board.cpu.mode = i.modeAfter := by
  by_cases hm : Part.mode ∈ i.footprint b
  · obtain ⟨x, rfl⟩ := (b.mem_footprint_iff_of_writer i rfl).1 hm
    rw [step_of_fetches hrun hi]
    rfl
  · have hkept : b.step.board.cpu.mode = b.cpu.mode :=
      agreesAt_step_of_ok (p := .mode) hrun hi hok nofun hm
    have hafter : i.modeAfter = .running := by
      cases hmode : i.modeAfter with
      | running => rfl
      | awaitingKey y =>
        obtain rfl := Instruction.modeAfter_eq_iff.1 hmode
        exact absurd ((b.mem_footprint_iff_of_writer _ rfl).2 ⟨y, rfl⟩) hm
    rw [hkept, hrun, hafter]

theorem mode_step_of_running (hrun : b.cpu.mode = .running) :
    b.step.board.cpu.mode = ((b.executed .step).map Instruction.modeAfter).getD .running := by
  cases hout : b.step.outcome with
  | error f =>
    rw [executed_step_of_error hout]
    exact Eq.trans (control_step_of_error (p := .mode) hout rfl) hrun
  | ok notice =>
    obtain ⟨i, hi⟩ := fetches_of_ok hrun hout
    rw [executed_step_of_ok hrun hi hout]
    exact mode_step_of_ok hrun hi hout

theorem mode_apply_of_running (hrun : b.cpu.mode = .running) (c : Command) :
    (b.apply c).cpu.mode = ((b.executed c).map Instruction.modeAfter).getD .running := by
  cases c with
  | step => exact mode_step_of_running hrun
  | key e => exact Eq.trans (agreesAt_handleKey_of_running (p := .mode) hrun e nofun) hrun
  | keyOnCpu key =>
    change (b.pressOnCpu key).board.cpu.mode = .running
    rw [board_pressOnCpu_of_running hrun, hrun]
  | setRegister y value => exact (b.mode_writeRegister y value).trans hrun
  | reset | resetCpu => rfl
  | _ => exact hrun

theorem mode_handleKey_of_awaiting (hw : b.cpu.mode = .awaitingKey x) (e : KeyEvent) :
    (b.handleKey e).board.cpu.mode =
      if (Command.key e).presses then .running else .awaitingKey x := by
  rw [Command.presses]
  rcases Nat.lt_or_ge 15 e.key with hno | hkey
  · rw [b.handleKey_of_noKey hno, decide_eq_false (Nat.not_le.2 hno), Bool.and_false]
    exact hw
  · rw [decide_eq_true hkey, Bool.and_true]
    cases hd : e.down with
    | true =>
      rw [b.handleKey_of_down hkey hd, press_of_awaiting hw]
      rfl
    | false =>
      rw [b.handleKey_of_up hkey hd]
      exact hw

theorem mode_pressOnCpu_of_awaiting (hw : b.cpu.mode = .awaitingKey x) (key : Nat) :
    (b.pressOnCpu key).board.cpu.mode =
      if (Command.keyOnCpu key).presses then .running else .awaitingKey x := by
  rw [Command.presses]
  rcases Nat.lt_or_ge 15 key with hno | hkey
  · rw [decide_eq_false (Nat.not_le.2 hno), pressOnCpu, Key.ofNat?_of_lt hno]
    exact hw
  · rw [decide_eq_true hkey, pressOnCpu, Key.ofNat?_of_le hkey]
    simp only [press_of_awaiting hw]
    rfl

theorem mode_apply_of_awaiting (hw : b.cpu.mode = .awaitingKey x) (c : Command) :
    (b.apply c).cpu.mode = if c.resets || c.presses then .running else .awaitingKey x := by
  cases c with
  | step =>
    change b.step.board.cpu.mode = .awaitingKey x
    rw [step_of_awaiting hw]
    exact hw
  | key e => exact mode_handleKey_of_awaiting hw e
  | keyOnCpu key => exact mode_pressOnCpu_of_awaiting hw key
  | setRegister y value => exact (b.mode_writeRegister y value).trans hw
  | reset | resetCpu => rfl
  | _ => exact hw

theorem after_of_awaiting (hw : b.cpu.mode = .awaitingKey x) {history : List Command}
    (hh : ∀ c ∈ history, c.resets = false ∧ c.presses = false) :
    (b.after history).cpu.mode = .awaitingKey x ∧ b.executions history = [] := by
  induction history generalizing b with
  | nil => exact ⟨hw, rfl⟩
  | cons c history ih =>
    obtain ⟨⟨hresets, hpresses⟩, hrest⟩ := List.forall_mem_cons.1 hh
    have hnext : (b.apply c).cpu.mode = .awaitingKey x := by
      rw [mode_apply_of_awaiting hw, hresets, hpresses]
      rfl
    obtain ⟨hmode, hnone⟩ := ih hnext hrest
    exact ⟨hmode, (executions_cons_of_none (executed_of_awaiting hw c) history).trans hnone⟩

theorem after_of_running (hrun : b.cpu.mode = .running) {history : List Command}
    (hh : ∀ e ∈ b.executions history, ∀ y, e.2 ≠ .transfer .awaitKey y) :
    (b.after history).cpu.mode = .running := by
  induction history generalizing b with
  | nil => exact hrun
  | cons c history ih =>
    have hnext := mode_apply_of_running hrun c
    cases hc : b.executed c with
    | none =>
      rw [hc] at hnext
      rw [executions_cons_of_none hc] at hh
      exact ih hnext hh
    | some i =>
      rw [hc] at hnext
      rw [executions_cons_of_some hc] at hh
      obtain ⟨hi, hrest⟩ := List.forall_mem_cons.1 hh
      refine ih ?_ hrest
      cases hmode : i.modeAfter with
      | running => exact hnext.trans hmode
      | awaitingKey y => exact absurd (Instruction.modeAfter_eq_iff.1 hmode) (hi y)

theorem since_wait_of_awaiting (hrun : b.cpu.mode = .running) {history : List Command}
    (hw : (b.after history).cpu.mode = .awaitingKey x) :
    Since (fun earlier c => (b.after earlier).executed c = some (.transfer .awaitKey x))
      (fun c => c.resets = false ∧ c.presses = false) history := by
  induction history using List.reverseRecOn with
  | nil => exact absurd (hrun.symm.trans hw) nofun
  | append_singleton history c ih =>
    rw [since_snoc_iff]
    rw [after_append] at hw
    change ((b.after history).apply c).cpu.mode = .awaitingKey x at hw
    rcases (b.after history).running_or_awaiting with hbefore | ⟨y, hbefore⟩
    -- The last command starts the wait,
    · rw [mode_apply_of_running hbefore] at hw
      cases hc : (b.after history).executed c with
      | none =>
        rw [hc] at hw
        cases hw
      | some i =>
        rw [hc] at hw
        obtain rfl := Instruction.modeAfter_eq_iff.1 hw
        exact .inl rfl
    -- or it leaves alone one that was pending before it.
    · rw [mode_apply_of_awaiting hbefore] at hw
      split at hw
      · cases hw
      · next hidle =>
        obtain rfl := Mode.awaitingKey.inj hw
        rw [Bool.or_eq_true, not_or, Bool.not_eq_true, Bool.not_eq_true] at hidle
        exact .inr ⟨hidle, ih hbefore⟩

def Pending (b : Board) (history : List Command) (x : RegisterName) : Prop :=
  ∃ earlier later, history = earlier ++ .step :: later ∧
    (b.after earlier).executed .step = some (.transfer .awaitKey x) ∧
    (b.after earlier).step.board.executions later = [] ∧
    ∀ c ∈ later, c.resets = false ∧ c.presses = false

theorem awaiting_iff_pending (hrun : b.cpu.mode = .running) (history : List Command)
    (x : RegisterName) :
    (b.after history).cpu.mode = .awaitingKey x ↔ b.Pending history x := by
  have hstart {earlier : List Command}
      (he : (b.after earlier).executed .step = some (.transfer .awaitKey x)) :
      (b.after earlier).step.board.cpu.mode = .awaitingKey x := by
    obtain ⟨_, hbefore, hi, notice, hok⟩ := executed_eq_some_iff.1 he
    exact mode_step_of_ok hbefore hi hok
  constructor
  · intro hw
    obtain ⟨earlier, c, later, hsplit, he, hlater⟩ := since_wait_of_awaiting hrun hw
    obtain ⟨rfl, _⟩ := executed_eq_some_iff.1 he
    exact ⟨earlier, later, hsplit, he, (after_of_awaiting (hstart he) hlater).2, hlater⟩
  · rintro ⟨earlier, later, rfl, he, _, hlater⟩
    rw [after_append]
    exact (after_of_awaiting (hstart he) hlater).1

theorem agreesAt_apply_of_passive (hw : b.cpu.mode = .awaitingKey x) (hc : c.passive = true)
    {p : Part} (hp : p.ambient = false) : b.AgreesAt (b.apply c) p := by
  have htimed : p.timed = false := by
    cases p with
    | delay | sound | tone => cases hp
    | _ => rfl
  have hkeypad : p ≠ .keypad := by
    rintro rfl
    cases hp
  cases c with
  | step =>
    change b.AgreesAt b.step.board p
    rw [step_of_awaiting hw]
    exact .refl b p
  | tick => exact b.agreesAt_tick htimed
  | key e =>
    change b.AgreesAt (b.handleKey e).board p
    rcases Nat.lt_or_ge 15 e.key with hno | hkey
    · rw [b.handleKey_of_noKey hno]
      exact .refl b p
    · have hup : e.down = false := by
        simpa [Command.passive, Nat.not_lt.2 hkey] using hc
      rw [b.handleKey_of_up hkey hup]
      exact b.agreesAt_keypad _ hkeypad
  | _ => cases hc

theorem agreesAt_after_of_passive (hw : b.cpu.mode = .awaitingKey x) {history : List Command}
    (hh : ∀ c ∈ history, c.passive = true) {p : Part} (hp : p.ambient = false) :
    b.AgreesAt (b.after history) p := by
  induction history generalizing b with
  | nil => exact .refl b p
  | cons c history ih =>
    obtain ⟨hc, hrest⟩ := List.forall_mem_cons.1 hh
    have hnext : (b.apply c).cpu.mode = b.cpu.mode :=
      agreesAt_apply_of_passive (p := .mode) hw hc rfl
    exact (agreesAt_apply_of_passive hw hc hp).trans (ih (hnext.trans hw) hrest)

structure Waits (b : Board) (x : RegisterName) (still : Board) : Prop where
  mode : still.cpu.mode = .awaitingKey x
  pc : still.cpu.pc.toNat = b.cpu.pc.toNat + 2
  kept : ∀ p : Part, p ≠ .pc → p ≠ .mode → p.ambient = false → b.AgreesAt still p
  idle : still.step.board = still
  outcome : still.step.outcome = .ok .wait

structure Resolved (still : Board) (x : RegisterName) (key : Nat) (pressed : Board) : Prop where
  mode : pressed.cpu.mode = .running
  pc : pressed.cpu.pc = still.cpu.pc
  written : (pressed.cpu.register x).toNat = key
  others : ∀ y ≠ x, pressed.cpu.register y = still.cpu.register y

theorem outcome_step_of_awaitKey (hrun : b.cpu.mode = .running)
    (hi : b.Fetches (.transfer .awaitKey x)) : b.step.outcome = .ok .wait := by
  rw [step_of_fetches hrun hi]
  rfl

theorem waits_after (hrun : b.cpu.mode = .running) (hi : b.Fetches (.transfer .awaitKey x))
    {history : List Command} (hh : ∀ c ∈ history, c.passive = true) :
    b.Waits x (b.step.board.after history) := by
  have hok := outcome_step_of_awaitKey hrun hi
  have hmode : b.step.board.cpu.mode = .awaitingKey x := mode_step_of_ok hrun hi hok
  have hkept {p : Part} (hp : p.ambient = false) :
      b.step.board.AgreesAt (b.step.board.after history) p :=
    agreesAt_after_of_passive hmode hh hp
  have hstill : (b.step.board.after history).cpu.mode = .awaitingKey x :=
    Eq.trans (hkept (p := .mode) rfl) hmode
  have hpc : b.step.board.cpu.pc.toNat = b.cpu.pc.toNat + 2 := (flow_step_of_ok hrun hi hok).2.1
  refine ⟨hstill, ?_, fun p hpc hm hp => ?_, ?_, ?_⟩
  · exact (congrArg UInt16.toNat (hkept (p := .pc) rfl)).trans hpc
  · exact (agreesAt_step_of_ok hrun hi hok hpc fun hmem => hm hmem).trans (hkept hp)
  · rw [step_of_awaiting hstill]
  · rw [step_of_awaiting hstill]

theorem resolved_handleKey (hw : b.cpu.mode = .awaitingKey x) {key : Nat} (hkey : key ≤ 15) :
    b.Resolved x key (b.handleKey ⟨key, true⟩).board := by
  rw [b.handleKey_of_down (e := ⟨key, true⟩) hkey rfl, press_of_awaiting hw]
  refine ⟨rfl, rfl, ?_, fun y hy => ?_⟩
  · have hset : ((b.cpu.setRegister x (UInt8.ofNat key)).register x).toNat = key := by
      rw [Cpu.register_setRegister, if_pos rfl, UInt8.toNat_ofNat']
      exact Nat.mod_eq_of_lt (by omega)
    exact hset
  · exact (b.cpu.register_setRegister x y _).trans (if_neg hy.symm)

theorem key_wait_protocol :
    (∀ (b : Board) (x : RegisterName), b.cpu.mode = .running →
      b.Fetches (.transfer .awaitKey x) →
      b.step.outcome = .ok .wait ∧
      ∀ history : List Command, (∀ c ∈ history, c.passive = true) →
        let still := b.step.board.after history
        b.Waits x still ∧
        ∀ key ≤ 15,
          let pressed := (still.handleKey ⟨key, true⟩).board
          still.Resolved x key pressed ∧
          ∀ later : List Command,
            (∀ e ∈ pressed.executions later, ∀ y, e.2 ≠ .transfer .awaitKey y) →
            ∀ e y, ((pressed.after later).handleKey e).board.cpu.register y =
              (pressed.after later).cpu.register y) ∧
    ∀ (kind : ToneKind) (origin : UInt16) (random : RandomSource) (history : List Command)
      (x : RegisterName),
      ((powerOn kind origin random).after history).cpu.mode = .awaitingKey x ↔
        (powerOn kind origin random).Pending history x := by
  refine ⟨fun b x hrun hi => ⟨outcome_step_of_awaitKey hrun hi, fun history hh => ?_⟩,
    fun kind origin random history x => awaiting_iff_pending rfl history x⟩
  have hwaits := waits_after hrun hi hh
  refine ⟨hwaits, fun key hkey => ?_⟩
  have hresolved := resolved_handleKey hwaits.mode hkey
  refine ⟨hresolved, fun later hlater e y => ?_⟩
  have hrunning := after_of_running hresolved.mode hlater
  exact agreesAt_handleKey_of_running (p := .register y) hrunning e nofun

theorem key_wait_protocol_released :
    let b := loaded [0xF3, 0x0A]
    let history : List Command := [.step, .key ⟨7, false⟩, .tick, .key ⟨16, true⟩]
    let still := b.step.board.after history
    (b.cpu.mode = .running ∧ b.Fetches (.transfer .awaitKey 3) ∧
      ∀ c ∈ history, c.passive = true) ∧
      b.Waits 3 still ∧ still.Resolved 3 9 (still.handleKey ⟨9, true⟩).board := by
  intro b history still
  have hi : b.Fetches (.transfer .awaitKey 3) := fetches_loaded rfl
  have hh : ∀ c ∈ history, c.passive = true := by simp [history, Command.passive]
  obtain ⟨_, hwait⟩ := key_wait_protocol.1 b 3 rfl hi
  obtain ⟨hwaits, hpress⟩ := hwait history hh
  exact ⟨⟨rfl, hi, hh⟩, hwaits, (hpress 9 (by decide)).1⟩

end Board

end ChipEight
