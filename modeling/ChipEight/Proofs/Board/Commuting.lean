import ChipEight.Proofs.Board.KeyWait
import ChipEight.Proofs.Board.Operations
import ChipEight.Proofs.Board.Periphery

namespace ChipEight

structure Ambience where
  delay : UInt8
  sound : UInt8
  tone : Tone
  keypad : Keypad

namespace Ambience

def tick (a : Ambience) : Ambience where
  delay := countDown a.delay 1
  sound := countDown a.sound 1
  tone := a.tone.turn (decide (0 < countDown a.sound 1))
  keypad := a.keypad

def setKey (key : Key) (down : Bool) (a : Ambience) : Ambience :=
  { a with keypad := a.keypad.put key down }

end Ambience

def Periphery.mapAmbience (h : Ambience → Ambience) (p : Periphery) : Periphery :=
  let a := h ⟨p.delay, p.sound, p.tone, p.keypad⟩
  { p with delay := a.delay, sound := a.sound, tone := a.tone, keypad := a.keypad }

def Board.mapAmbience (b : Board) (h : Ambience → Ambience) : Board :=
  b.mapPeriphery (.mapAmbience h)

def Effect.mapAmbience (e : Effect) (h : Ambience → Ambience) : Effect :=
  e.mapPeriphery (.mapAmbience h)

def Reply.mapAmbience {α : Type} (r : Reply α) (h : Ambience → Ambience) : Reply α :=
  r.mapPeriphery (.mapAmbience h)

namespace Instruction

def timing : Instruction → Bool
  | transfer .readDelay _ | transfer .setDelay _ | transfer .setSound _ => true
  | _ => false

def keying : Instruction → Bool
  | skip (.keyDown _) | skip (.keyUp _) => true
  | _ => false

def AsksFor (b : Board) (key : Nat) : Instruction → Prop
  | skip (.keyDown x) | skip (.keyUp x) => (b.cpu.register x).toNat = key
  | _ => False

end Instruction

theorem Keypad.isDown_put_of_ne (k : Keypad) {key : Key} {n : Nat} (h : n ≠ key.val)
    (down : Bool) : (k.put key down).isDown n = k.isDown n := by
  rcases Nat.lt_or_ge n keyCount with hin | hout
  · have hne : key ≠ ⟨n, hin⟩ := fun he => h (congrArg Fin.val he).symm
    rw [isDown_of_lt _ hin, isDown_of_lt _ hin, get_put, if_neg hne]
  · rw [isDown_of_le _ hout, isDown_of_le _ hout]

namespace Effect

theorem finish_mapAmbience (e : Effect) (h : Ambience → Ambience) :
    (e.mapAmbience h).finish = e.finish.mapAmbience h := by
  cases hout : e.outcome with
  | ok r =>
    rw [finish_of_ok hout, finish_of_ok (e := e.mapAmbience h) hout]
    rfl
  | error f =>
    rw [finish_of_error hout, finish_of_error (e := e.mapAmbience h) hout]
    rfl

end Effect

namespace Board

variable {b : Board} {i : Instruction} {h : Ambience → Ambience}

theorem skip_mapAmbience {c : Condition} (hc : (b.mapAmbience h).holds c = b.holds c) :
    (b.mapAmbience h).skip c = (b.skip c).mapAmbience h := by
  unfold skip
  rw [hc]
  split <;> rfl

theorem drawSprite_mapAmbience (b : Board) (x y : RegisterName) (rows : Nat)
    (h : Ambience → Ambience) :
    (b.mapAmbience h).drawSprite x y rows = (b.drawSprite x y rows).mapAmbience h := by
  have hfits : (b.mapAmbience h).fits rows = b.fits rows := rfl
  cases hroom : b.fits rows with
  | true =>
    rw [drawSprite_of_fits hroom, drawSprite_of_fits (hfits.trans hroom)]
    rfl
  | false =>
    rw [drawSprite_of_not_fits hroom, drawSprite_of_not_fits (hfits.trans hroom)]
    rfl

theorem execute_mapAmbience (ht : i.timing = false) (hk : i.keying = false) (b : Board)
    (h : Ambience → Ambience) : (b.mapAmbience h).execute i = (b.execute i).mapAmbience h := by
  have hinward (hi : i.inward = true) : (b.mapAmbience h).execute i = (b.execute i).mapAmbience h :=
    execute_mapPeriphery hi b (.mapAmbience h)
  cases i with
  | clear | random x nn => rfl
  | draw x y n => exact b.drawSprite_mapAmbience x y n.val h
  | skip c =>
    cases c with
    | keyDown x | keyUp x => cases hk
    | _ => exact hinward rfl
  | transfer op x =>
    cases op with
    | readDelay | setDelay | setSound => cases ht
    | _ => exact hinward rfl
  | _ => exact hinward rfl

theorem execute_tick (hi : i.timing = false) (b : Board) :
    (b.mapAmbience .tick).execute i = (b.execute i).mapAmbience .tick := by
  cases hk : i.keying with
  | false => exact execute_mapAmbience hi hk b .tick
  | true =>
    obtain ⟨x, rfl | rfl⟩ : ∃ x, i = .skip (.keyDown x) ∨ i = .skip (.keyUp x) := by
      unfold Instruction.keying at hk
      split at hk
      · exact ⟨_, .inl rfl⟩
      · exact ⟨_, .inr rfl⟩
      · cases hk
    · exact skip_mapAmbience rfl
    · exact skip_mapAmbience rfl

theorem execute_setKey {key : Key} (hi : ¬i.AsksFor b key.val) (down : Bool) :
    (b.mapAmbience (.setKey key down)).execute i =
      (b.execute i).mapAmbience (.setKey key down) := by
  cases i with
  | skip c =>
    cases c with
    | keyDown x => exact skip_mapAmbience (b.keypad.isDown_put_of_ne hi down)
    | keyUp x =>
      exact skip_mapAmbience (congrArg (Except.map not) (b.keypad.isDown_put_of_ne hi down))
    | _ => exact execute_mapAmbience rfl rfl b _
  | transfer op x =>
    cases op with
    | readDelay | setDelay | setSound => rfl
    | _ => exact execute_mapAmbience rfl rfl b _
  | _ => exact execute_mapAmbience rfl rfl b _

theorem step_mapAmbience
    (hexecute : ∀ i, b.cpu.mode = .running → b.Fetches i →
      (b.mapAmbience h).execute i = (b.execute i).mapAmbience h) :
    (b.mapAmbience h).step = b.step.mapAmbience h := by
  have hmode : (b.mapAmbience h).cpu.mode = b.cpu.mode := rfl
  rcases b.running_or_awaiting with hrun | ⟨x, hwait⟩
  · rcases b.fetch_cases with hout | ⟨hin, hw⟩ | ⟨i, hi⟩
    · rw [step_of_unfetchable hrun hout, step_of_unfetchable (b := b.mapAmbience h) hrun hout]
      rfl
    · rw [step_of_undecodable hrun hin hw, step_of_undecodable (b := b.mapAmbience h) hrun hin hw]
      rfl
    · have hfetches : (b.mapAmbience h).Fetches i := hi.congr rfl rfl
      rw [step_of_fetches hrun hi, step_of_fetches (hmode.trans hrun) hfetches, hexecute i hrun hi,
        Effect.finish_mapAmbience]
      rfl
  · rw [step_of_awaiting hwait, step_of_awaiting (hmode.trans hwait)]
    rfl

structure Commutes (b : Board) (op op' : Operation) : Prop where
  board : (b.operate op).operate op' = (b.operate op').operate op
  first : (b.operate op').answer op = b.answer op
  second : (b.operate op).answer op' = b.answer op'

theorem Commutes.symm {op op' : Operation} (hc : b.Commutes op op') : b.Commutes op' op :=
  ⟨hc.board.symm, hc.second, hc.first⟩

theorem commutes_step_of_mapAmbience {op : Operation} (hbefore : b.operate op = b.mapAmbience h)
    (hafter : b.step.board.operate op = b.step.board.mapAmbience h)
    (hanswer : b.step.board.answer op = b.answer op)
    (hstep : (b.mapAmbience h).step = b.step.mapAmbience h) :
    b.Commutes (.board .step) op := by
  refine ⟨?_, ?_, hanswer⟩
  · change b.step.board.operate op = (b.operate op).step.board
    rw [hafter, hbefore, hstep]
    rfl
  · change some ((b.operate op).step.outcome.map Answer.notice) = _
    rw [hbefore, hstep]
    rfl

theorem commutes_of_noKey (b : Board) {key : Nat} (hno : 15 < key) (down : Bool)
    (op : Operation) : b.Commutes (.board (.key ⟨key, down⟩)) op := by
  have hboard (b : Board) : b.operate (.board (.key ⟨key, down⟩)) = b :=
    congrArg Reply.board (b.handleKey_of_lt hno down)
  have hanswer (b : Board) :
      b.answer (.board (.key ⟨key, down⟩)) = some (.error (.noKey key)) := by
    change some ((b.handleKey ⟨key, down⟩).outcome.map _) = _
    rw [b.handleKey_of_lt hno down]
    rfl
  exact ⟨by rw [hboard, hboard], by rw [hanswer, hanswer], by rw [hboard]⟩

theorem answer_key_of_le (b : Board) {key : Nat} (hkey : key ≤ 15) (down : Bool) :
    b.answer (.board (.key ⟨key, down⟩)) = some (.ok .done) := by
  change some ((b.handleKey ⟨key, down⟩).outcome.map _) = _
  cases down with
  | true =>
    rw [b.handleKey_of_down (e := ⟨key, true⟩) hkey rfl]
    rfl
  | false =>
    rw [b.handleKey_of_up (e := ⟨key, false⟩) hkey rfl]
    rfl

theorem operate_release (b : Board) {key : Nat} (hkey : key ≤ 15) :
    b.operate (.board (.key ⟨key, false⟩)) =
      b.mapAmbience (.setKey ⟨key, Nat.lt_succ_of_le hkey⟩ false) :=
  congrArg Reply.board (b.handleKey_of_up (e := ⟨key, false⟩) hkey rfl)

theorem operate_press_of_running (hrun : b.cpu.mode = .running) {key : Nat} (hkey : key ≤ 15) :
    b.operate (.board (.key ⟨key, true⟩)) =
      b.mapAmbience (.setKey ⟨key, Nat.lt_succ_of_le hkey⟩ true) := by
  change (b.handleKey ⟨key, true⟩).board = _
  rw [b.handleKey_of_down (e := ⟨key, true⟩) hkey rfl, press_of_running hrun]
  rfl

theorem commutes_tick_key (b : Board) (e : KeyEvent) :
    b.Commutes (.board .tick) (.board (.key e)) := by
  obtain ⟨key, down⟩ := e
  rcases Nat.lt_or_ge 15 key with hno | hkey
  · exact (b.commutes_of_noKey hno down (.board .tick)).symm
  · refine ⟨?_, rfl, by rw [answer_key_of_le _ hkey, answer_key_of_le _ hkey]⟩
    change (b.tick.1.handleKey ⟨key, down⟩).board = (b.handleKey ⟨key, down⟩).board.tick.1
    cases down with
    | false =>
      rw [b.handleKey_of_up (e := ⟨key, false⟩) hkey rfl,
        b.tick.1.handleKey_of_up (e := ⟨key, false⟩) hkey rfl]
      rfl
    | true =>
      rw [b.handleKey_of_down (e := ⟨key, true⟩) hkey rfl,
        b.tick.1.handleKey_of_down (e := ⟨key, true⟩) hkey rfl]
      have hmode : b.tick.1.cpu.mode = b.cpu.mode := rfl
      rcases b.running_or_awaiting with hrun | ⟨x, hwait⟩
      · rw [press_of_running hrun, press_of_running (hmode.trans hrun)]
        rfl
      · rw [press_of_awaiting hwait, press_of_awaiting (hmode.trans hwait)]
        rfl

theorem commutes_step_tick
    (hi : ∀ i, b.cpu.mode = .running → b.Fetches i → i.timing = false) :
    b.Commutes (.board .step) (.board .tick) :=
  commutes_step_of_mapAmbience rfl rfl rfl
    (step_mapAmbience fun i hrun hfetches => execute_tick (hi i hrun hfetches) b)

theorem commutes_step_release {key : Nat} (hi : ∀ i, b.Fetches i → ¬i.AsksFor b key) :
    b.Commutes (.board .step) (.board (.key ⟨key, false⟩)) := by
  rcases Nat.lt_or_ge 15 key with hno | hkey
  · exact (b.commutes_of_noKey hno false (.board .step)).symm
  · refine commutes_step_of_mapAmbience (b.operate_release hkey) (b.step.board.operate_release hkey)
      ?_ (step_mapAmbience fun i _ hfetches => execute_setKey (hi i hfetches) false)
    rw [answer_key_of_le _ hkey, answer_key_of_le _ hkey]

theorem mode_step_of_not_awaitKey (hrun : b.cpu.mode = .running)
    (hi : ∀ i, b.Fetches i → ∀ x, i ≠ .transfer .awaitKey x) :
    b.step.board.cpu.mode = .running := by
  rw [mode_step_of_running hrun]
  cases hexecuted : b.executed .step with
  | none => rfl
  | some i =>
    obtain ⟨_, _, hfetches, _⟩ := executed_eq_some_iff.1 hexecuted
    cases hafter : i.modeAfter with
    | running => exact hafter
    | awaitingKey x => exact absurd (Instruction.modeAfter_eq_iff.1 hafter) (hi i hfetches x)

theorem commutes_step_press {key : Nat} (hrun : b.cpu.mode = .running)
    (hi : ∀ i, b.Fetches i → ¬i.AsksFor b key ∧ ∀ x, i ≠ .transfer .awaitKey x) :
    b.Commutes (.board .step) (.board (.key ⟨key, true⟩)) := by
  rcases Nat.lt_or_ge 15 key with hno | hkey
  · exact (b.commutes_of_noKey hno true (.board .step)).symm
  · have hafter := mode_step_of_not_awaitKey hrun fun i hfetches => (hi i hfetches).2
    refine commutes_step_of_mapAmbience (operate_press_of_running hrun hkey)
      (operate_press_of_running hafter hkey) ?_
      (step_mapAmbience fun i _ hfetches => execute_setKey (hi i hfetches).1 true)
    rw [answer_key_of_le _ hkey, answer_key_of_le _ hkey]

theorem ticks_keys_and_steps_commute :
    (∀ (b : Board) (e : KeyEvent), b.Commutes (.board .tick) (.board (.key e))) ∧
    (∀ b : Board, (∀ i, b.cpu.mode = .running → b.Fetches i → i.timing = false) →
      b.Commutes (.board .step) (.board .tick)) ∧
    (∀ (b : Board) (key : Nat), (∀ i, b.Fetches i → ¬i.AsksFor b key) →
      b.Commutes (.board .step) (.board (.key ⟨key, false⟩))) ∧
    (∀ (b : Board) (key : Nat), b.cpu.mode = .running →
      (∀ i, b.Fetches i → ¬i.AsksFor b key ∧ ∀ x, i ≠ .transfer .awaitKey x) →
      b.Commutes (.board .step) (.board (.key ⟨key, true⟩))) ∧
    ∀ (b : Board) (key : Nat) (down : Bool), 15 < key →
      b.handleKey ⟨key, down⟩ = { board := b, outcome := .error (.noKey key) } ∧
        ∀ op, b.Commutes (.board (.key ⟨key, down⟩)) op :=
  ⟨commutes_tick_key, fun _ => commutes_step_tick, fun _ _ => commutes_step_release,
    fun _ _ => commutes_step_press,
    fun b _ down hno => ⟨b.handleKey_of_lt hno down, b.commutes_of_noKey hno down⟩⟩

theorem ticks_keys_and_steps_commute_skipping :
    let b := loaded [0xE3, 0x9E]
    (b.cpu.mode = .running ∧ b.Fetches (.skip (.keyDown 3)) ∧ (b.cpu.register 3).toNat = 0) ∧
      b.Commutes (.board .step) (.board .tick) ∧
      b.Commutes (.board .step) (.board (.key ⟨7, false⟩)) ∧
      b.Commutes (.board .step) (.board (.key ⟨7, true⟩)) ∧
      b.Commutes (.board (.key ⟨16, true⟩)) (.board .reset) := by
  intro b
  have hi : b.Fetches (.skip (.keyDown 3)) := fetches_loaded rfl
  have hzero : (b.cpu.register 3).toNat = 0 := rfl
  obtain ⟨_, htick, hrelease, hpress, hnoKey⟩ := ticks_keys_and_steps_commute
  have hseven : ∀ i, b.Fetches i → ¬i.AsksFor b 7 ∧ ∀ x, i ≠ .transfer .awaitKey x := by
    intro i hfetches
    obtain rfl := hi.unique hfetches
    refine ⟨fun hasks => ?_, nofun⟩
    have hsame : (b.cpu.register 3).toNat = 7 := hasks
    omega
  refine ⟨⟨rfl, hi, hzero⟩, htick b fun i _ hfetches => ?_,
    hrelease b 7 fun i hfetches => (hseven i hfetches).1, hpress b 7 rfl hseven,
    (hnoKey b 16 true (by decide)).2 (.board .reset)⟩
  obtain rfl := hi.unique hfetches
  rfl

end Board

end ChipEight
