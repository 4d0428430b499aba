import ChipEight.Proofs.Board.Guise
import ChipEight.Proofs.Board.Operations

namespace ChipEight

structure Likeness where
  random : RandomSource → RandomSource → Prop
  fade : Grid UInt8 → Grid UInt8 → Prop
  tone : Tone → Tone → Prop
  flag : Bool → Bool → Prop
  byte_eq : ∀ {r r'}, random r r' → r'.next.1 = r.next.1
  random_next : ∀ {r r'}, random r r' → random r.next.2 r'.next.2
  fade_congr : ∀ {f f'} (change : Grid UInt8 → Grid UInt8), fade f f' → fade (change f) (change f')
  tone_turn : ∀ {t t'} (on : Bool), tone t t' → tone (t.turn on) (t'.turn on)
  flag_refl : ∀ value, flag value value

def Likeness.exact : Likeness where
  random r r' := r' = r
  fade f f' := f' = f
  tone t t' := t' = t
  flag v v' := v' = v
  byte_eq h := by rw [h]
  random_next h := by rw [h]
  fade_congr change h := congrArg change h
  tone_turn on h := congrArg (·.turn on) h
  flag_refl _ := rfl

namespace Likeness

structure Relates (L : Likeness) (g g' : Guise) : Prop where
  random : L.random g.random g'.random
  fade : L.fade g.fade g'.fade
  tone : L.tone g.tone g'.tone
  broken : L.flag g.broken g'.broken
  shutdown : L.flag g.shutdown g'.shutdown

structure Alike (L : Likeness) (b b' : Board) : Prop where
  core : b' = b.withGuise b'.guise
  guise : L.Relates b.guise b'.guise

structure AlikeScreens (L : Likeness) (s s' : Screen) : Prop where
  pixels : s'.pixels = s.pixels
  fade : L.fade s.fade s'.fade

structure AlikeEffects (L : Likeness) (e e' : Effect) : Prop where
  board : L.Alike e.board e'.board
  outcome : e'.outcome = e.outcome

structure AlikeReplies {α : Type} (L : Likeness) (r r' : Reply α) : Prop where
  board : L.Alike r.board r'.board
  outcome : r'.outcome = r.outcome

variable {L : Likeness} {b b' : Board} {s s' : Screen} {g : Guise}

theorem Alike.cpu (h : L.Alike b b') : b'.cpu = { b.cpu with random := b'.cpu.random } :=
  congrArg Board.cpu h.core

theorem Alike.memory (h : L.Alike b b') : b'.memory = b.memory := by
  rw [h.core]
  rfl

theorem Alike.map {f : Board → Board}
    (hf : ∀ b g, f (b.withGuise g) = (f b).withGuise g)
    (hg : (f b).guise = b.guise) (h : L.Alike b b') :
    L.Alike (f b) (f b') := by
  have hcore : f b' = (f b).withGuise b'.guise := by
    rw [← hf, ← h.core]
  refine ⟨?_, ?_⟩
  · rw [hcore, Board.guise_withGuise]
  · rw [hcore, Board.guise_withGuise, hg]
    exact h.guise

theorem AlikeScreens.flip (h : L.AlikeScreens s s') (x y : Nat) (bit : Bool) :
    L.AlikeScreens (s.flip x y bit).1 (s'.flip x y bit).1 ∧
      (s'.flip x y bit).2 = (s.flip x y bit).2 := by
  have hpixel : s'.pixel x y = s.pixel x y := by rw [Screen.pixel, h.pixels, Screen.pixel]
  have hoff : (s'.flip x y bit).2 = (s.flip x y bit).2 := by
    simp only [Screen.flip, hpixel]
  refine ⟨⟨?_, ?_⟩, hoff⟩
  · simp only [Screen.flip, hpixel, h.pixels]
  · simp only [Screen.flip, hpixel]
    split
    · exact L.fade_congr (·.set x y Screen.fullFade) h.fade
    · exact h.fade

theorem AlikeScreens.flipRow (h : L.AlikeScreens s s') (x y : Nat) (bits : List Bool) :
    L.AlikeScreens (s.flipRow x y bits).1 (s'.flipRow x y bits).1 ∧
      (s'.flipRow x y bits).2 = (s.flipRow x y bits).2 := by
  induction bits generalizing s s' x with
  | nil => exact ⟨h, rfl⟩
  | cons bit bits ih =>
    obtain ⟨hfirst, hoff⟩ := h.flip x y bit
    obtain ⟨hrest, hothers⟩ := ih hfirst (x + 1)
    refine ⟨hrest, ?_⟩
    simp only [Screen.flipRow, hoff, hothers]

theorem AlikeScreens.flipSprite (h : L.AlikeScreens s s') (x y : Nat) (rows : List UInt8) :
    L.AlikeScreens (s.flipSprite x y rows).1 (s'.flipSprite x y rows).1 ∧
      (s'.flipSprite x y rows).2 = (s.flipSprite x y rows).2 := by
  induction rows generalizing s s' y with
  | nil => exact ⟨h, rfl⟩
  | cons row rows ih =>
    obtain ⟨hfirst, hoff⟩ := h.flipRow x y (Screen.bits row)
    obtain ⟨hrest, hothers⟩ := ih hfirst (y + 1)
    refine ⟨hrest, ?_⟩
    simp only [Screen.flipSprite, Screen.flipByte, hoff, hothers]

theorem AlikeScreens.apply (h : L.AlikeScreens s s') (c : Screen.Command) :
    L.AlikeScreens (s.apply c) (s'.apply c) ∧ s'.answer c = s.answer c := by
  cases c with
  | clear | reset => exact ⟨⟨rfl, L.fade_congr (fun _ => .fill 0) h.fade⟩, rfl⟩
  | flip x y bit =>
    obtain ⟨hflipped, hoff⟩ := h.flip x y bit
    exact ⟨hflipped, congrArg (some ∘ Answer.switchedOff) hoff⟩
  | flipByte x y byte =>
    obtain ⟨hflipped, hoff⟩ := h.flipRow x y (Screen.bits byte)
    exact ⟨hflipped, congrArg (some ∘ Answer.switchedOff) hoff⟩
  | decay amount => exact ⟨⟨h.pixels, L.fade_congr (·.map (countDown · amount)) h.fade⟩, rfl⟩

theorem Alike.screens (h : L.Alike b b') : L.AlikeScreens b.screen b'.screen := by
  rw [h.core]
  exact ⟨rfl, h.guise.fade⟩

theorem Alike.withScreens (h : L.Alike b b') (hs : L.AlikeScreens s s') :
    L.Alike { b with screen := s } { b' with screen := s' } := by
  have hscreen : s' = { s with fade := s'.fade } := by rw [← hs.pixels]
  rw [h.core]
  refine ⟨?_, h.guise.random, hs.fade, h.guise.tone, h.guise.broken, h.guise.shutdown⟩
  rw [hscreen]
  rfl

theorem Alike.mapEffect {f : Board → Effect}
    (hf : ∀ b g, f (b.withGuise g) = (f b).withGuise g)
    (hg : (f b).board.guise = b.guise) (h : L.Alike b b') :
    L.AlikeEffects (f b) (f b') := by
  refine ⟨?_, ?_⟩
  · exact h.map (f := fun b => (f b).board)
      (fun b g => congrArg Effect.board (hf b g)) hg
  · rw [h.core, hf]
    rfl

theorem Alike.mapReply {α : Type} {f : Board → Reply α}
    (hf : ∀ b g, f (b.withGuise g) = (f b).withGuise g)
    (hg : (f b).board.guise = b.guise) (h : L.Alike b b') :
    L.AlikeReplies (f b) (f b') := by
  refine ⟨?_, ?_⟩
  · exact h.map (f := fun b => (f b).board)
      (fun b g => congrArg Reply.board (hf b g)) hg
  · rw [h.core, hf]
    rfl

theorem Alike.clear (h : L.Alike b b') :
    L.AlikeEffects (b.execute .clear) (b'.execute .clear) := by
  obtain ⟨hscreen, _⟩ := h.screens.apply .clear
  exact ⟨h.withScreens hscreen, rfl⟩

theorem Alike.randomize (h : L.Alike b b') (x : RegisterName) (mask : UInt8) :
    L.Alike (b.randomize x mask) (b'.randomize x mask) := by
  have hbyte : b'.cpu.random.next.1 = b.cpu.random.next.1 := L.byte_eq h.guise.random
  have hnext := L.random_next h.guise.random
  refine ⟨?_, hnext, h.guise.fade, h.guise.tone, h.guise.broken, h.guise.shutdown⟩
  rw [b.randomize_eq, b'.randomize_eq, hbyte]
  rw [h.core]
  rfl

theorem Alike.drawSprite (h : L.Alike b b') (x y : RegisterName) (rows : Nat) :
    L.AlikeEffects (b.drawSprite x y rows) (b'.drawSprite x y rows) := by
  have hdrawn : L.AlikeScreens (b.drawnScreen x y rows).1 (b'.drawnScreen x y rows).1 ∧
      (b'.drawnScreen x y rows).2 = (b.drawnScreen x y rows).2 := by
    rw [h.core]
    exact (h.core ▸ h.screens).flipSprite _ _ _
  have hfits : b'.fits rows = b.fits rows := by
    rw [h.core]
    rfl
  have hboard := h.withScreens hdrawn.1
  cases hroom : b.fits rows with
  | true =>
    rw [Board.drawSprite_of_fits hroom, Board.drawSprite_of_fits (hfits.trans hroom), hdrawn.2]
    refine ⟨hboard.map (f := (·.setFlag _)) (fun _ _ => rfl) rfl, rfl⟩
  | false =>
    rw [Board.drawSprite_of_not_fits hroom, Board.drawSprite_of_not_fits (hfits.trans hroom)]
    refine ⟨hboard, ?_⟩
    rw [h.core]
    rfl

theorem AlikeEffects.finish {e e' : Effect} (h : L.AlikeEffects e e') :
    L.AlikeReplies e.finish e'.finish := by
  cases hout : e.outcome with
  | error f =>
    rw [Effect.finish_of_error hout, Effect.finish_of_error (h.outcome.trans hout)]
    exact ⟨h.board, rfl⟩
  | ok r =>
    rw [Effect.finish_of_ok hout, Effect.finish_of_ok (h.outcome.trans hout)]
    have hmoved := h.board.map
      (f := fun b => { b with cpu := { b.cpu with pc := r.1.apply b.cpu.pc } })
      (fun _ _ => rfl) rfl
    exact ⟨hmoved, rfl⟩

theorem Alike.execute_of_plain (h : L.Alike b b') {i : Instruction} (hi : i.plain = true) :
    L.AlikeEffects (b.execute i) (b'.execute i) :=
  h.mapEffect (f := (·.execute i)) (Effect.withGuise_execute hi) (Board.guise_execute_of_plain hi)

theorem Alike.execute (h : L.Alike b b') (i : Instruction) :
    L.AlikeEffects (b.execute i) (b'.execute i) := by
  cases i with
  | clear => exact h.clear
  | random x nn => exact ⟨h.randomize x nn, rfl⟩
  | draw x y n => exact h.drawSprite x y n.val
  | _ => exact h.execute_of_plain rfl

theorem Alike.setBroken (h : L.Alike b b') (value : Bool) :
    L.Alike (b.setBroken value) (b'.setBroken value) := by
  refine ⟨?_, h.guise.random, h.guise.fade, h.guise.tone, L.flag_refl value, h.guise.shutdown⟩
  rw [h.core]
  rfl

theorem Alike.setShutdown (h : L.Alike b b') (value : Bool) :
    L.Alike (b.setShutdown value) (b'.setShutdown value) := by
  refine ⟨?_, h.guise.random, h.guise.fade, h.guise.tone, h.guise.broken, L.flag_refl value⟩
  rw [h.core]
  rfl

theorem Alike.perform (h : L.Alike b b') (w : Word) :
    L.AlikeReplies (b.perform w) (b'.perform w) := by
  unfold Board.perform
  cases Instruction.decode w with
  | none => exact ⟨h.setBroken true, rfl⟩
  | some i =>
    obtain ⟨hboard, hout⟩ := (h.execute i).finish
    exact ⟨hboard, hout⟩

theorem Alike.step (h : L.Alike b b') : L.AlikeReplies b.step b'.step := by
  have hmode : b'.cpu.mode = b.cpu.mode := by rw [h.cpu]
  have hpc : b'.cpu.pc = b.cpu.pc := by rw [h.cpu]
  rcases b.running_or_awaiting with hrun | ⟨x, hwait⟩
  · rcases Nat.lt_or_ge (b.cpu.pc.toNat + 1) memorySize with hin | hout
    · have hword : b'.wordAtPc = b.wordAtPc := by rw [Board.wordAtPc, hpc, h.memory, Board.wordAtPc]
      rw [Board.step_of_inside hrun hin,
        Board.step_of_inside (hmode.trans hrun) (by rw [hpc]; exact hin), hword]
      exact h.perform b.wordAtPc
    · rw [Board.step_of_unfetchable hrun hout,
        Board.step_of_unfetchable (hmode.trans hrun) (by rw [hpc]; exact hout), hpc]
      exact ⟨h, rfl⟩
  · rw [Board.step_of_awaiting hwait, Board.step_of_awaiting (hmode.trans hwait)]
    exact ⟨h, rfl⟩

theorem Alike.tick (h : L.Alike b b') : L.Alike b.tick.1 b'.tick.1 := by
  have hsound : b'.cpu.tick.sound = b.cpu.tick.sound := by
    rw [h.cpu]
    rfl
  have htone : L.tone b.tick.1.tone b'.tick.1.tone := by
    change L.tone _ (b'.tone.turn (decide (0 < b'.cpu.tick.sound)))
    rw [hsound]
    exact L.tone_turn _ h.guise.tone
  refine ⟨?_, h.guise.random, h.guise.fade, htone, h.guise.broken, h.guise.shutdown⟩
  rw [h.core]
  rfl

theorem Alike.reset (h : L.Alike b b') : L.Alike b.reset b'.reset := by
  refine ⟨?_, h.guise.random, ?_, ?_, L.flag_refl false, L.flag_refl false⟩
  · rw [h.core]
    rfl
  · exact L.fade_congr (fun _ => .fill 0) h.guise.fade
  · exact L.tone_turn false h.guise.tone

theorem Alike.handleKey (h : L.Alike b b') (e : KeyEvent) :
    L.AlikeReplies (b.handleKey e) (b'.handleKey e) := by
  refine h.mapReply (f := (·.handleKey e)) (fun b g => Reply.withGuise_handleKey b e g) ?_
  exact Board.guise_eq_of_agreesAt fun p hp =>
    b.agreesAt_handleKey e (Part.apart_of_disguises hp).2

theorem Alike.load (h : L.Alike b b') (data : List UInt8) (origin : UInt16) :
    L.AlikeReplies (b.load data origin) (b'.load data origin) :=
  h.mapReply (f := (·.load data origin)) (fun _ _ => rfl) rfl

theorem Alike.loadRom (h : L.Alike b b') (rom : Rom) :
    L.AlikeReplies (b.loadRom rom) (b'.loadRom rom) :=
  h.mapReply (f := (·.loadRom rom)) (fun _ _ => rfl) rfl

theorem Alike.pressOnCpu (h : L.Alike b b') (key : Nat) :
    L.AlikeReplies (b.pressOnCpu key) (b'.pressOnCpu key) := by
  refine h.mapReply (f := (·.pressOnCpu key)) (fun b g => Reply.withGuise_pressOnCpu b key g) ?_
  exact Board.guise_eq_of_agreesAt fun p hp =>
    b.agreesAt_pressOnCpu key (Part.apart_of_disguises hp).2

theorem Alike.writeRegister (h : L.Alike b b') (x : Nat) (value : UInt8) :
    L.Alike (b.writeRegister x value) (b'.writeRegister x value) ∧
      (b'.cpu.writeRegister x value).map (fun _ => Answer.done) =
        (b.cpu.writeRegister x value).map fun _ => Answer.done := by
  by_cases hx : x < registerCount
  · have hwrite (c : Cpu) : c.writeRegister x value = .ok (c.setRegister ⟨x, hx⟩ value) :=
      dif_pos hx
    have hset (b : Board) : b.writeRegister x value = b.setRegister ⟨x, hx⟩ value := by
      rw [Board.writeRegister, hwrite]
      rfl
    rw [hset, hset, hwrite, hwrite]
    exact ⟨h.map (f := (·.setRegister ⟨x, hx⟩ value)) (fun _ _ => rfl) rfl, rfl⟩
  · have hwrite (c : Cpu) : c.writeRegister x value = .error (.noRegister x) := dif_neg hx
    have hset (b : Board) : b.writeRegister x value = b := by
      rw [Board.writeRegister, hwrite]
    rw [hset, hset, hwrite, hwrite]
    exact ⟨h, rfl⟩

theorem AlikeReplies.answer {α : Type} {r r' : Reply α} (h : L.AlikeReplies r r')
    (f : α → Answer) : some (r'.outcome.map f) = some (r.outcome.map f) := by
  rw [h.outcome]

theorem Alike.apply (h : L.Alike b b') (c : Command) :
    L.Alike (b.apply c) (b'.apply c) ∧ b'.answerTo c = b.answerTo c := by
  cases c with
  | step => exact ⟨h.step.board, h.step.answer _⟩
  | tick => exact ⟨h.tick, rfl⟩
  | key e => exact ⟨(h.handleKey e).board, (h.handleKey e).answer _⟩
  | keyOnCpu key => exact ⟨(h.pressOnCpu key).board, (h.pressOnCpu key).answer _⟩
  | load data origin => exact ⟨(h.load data origin).board, (h.load data origin).answer _⟩
  | loadProgram data =>
    exact ⟨(h.load data programStart).board, (h.load data programStart).answer _⟩
  | loadRom rom => exact ⟨(h.loadRom rom).board, (h.loadRom rom).answer _⟩
  | setRegister x value =>
    obtain ⟨hboard, hout⟩ := h.writeRegister x value
    exact ⟨hboard, congrArg some hout⟩
  | setIndex index => exact ⟨h.map (f := (·.setIndex index)) (fun _ _ => rfl) rfl, rfl⟩
  | setBroken value => exact ⟨h.setBroken value, rfl⟩
  | setShutdown value => exact ⟨h.setShutdown value, rfl⟩
  | setScreen screen =>
    have hfade : L.fade screen.fade screen.fade := L.fade_congr (fun _ => screen.fade) h.guise.fade
    exact ⟨h.withScreens ⟨rfl, hfade⟩, rfl⟩
  | reset => exact ⟨h.reset, rfl⟩
  | resetCpu =>
    exact ⟨h.map (f := fun b => { b with cpu := b.cpu.reset }) (fun _ _ => rfl) rfl, rfl⟩

theorem Alike.operate (h : L.Alike b b') (op : Operation) :
    L.Alike (b.operate op) (b'.operate op) ∧ b'.answer op = b.answer op := by
  cases op with
  | board c => exact h.apply c
  | screen c =>
    obtain ⟨hscreen, hanswer⟩ := h.screens.apply c
    exact ⟨h.withScreens hscreen, congrArg (Option.map Except.ok) hanswer⟩
  | setPc pc => exact ⟨h.map (f := (·.setPc pc)) (fun _ _ => rfl) rfl, rfl⟩

theorem Alike.afterAll (h : L.Alike b b') (ops : List Operation) :
    L.Alike (b.afterAll ops) (b'.afterAll ops) ∧ b'.answers ops = b.answers ops := by
  induction ops generalizing b b' with
  | nil => exact ⟨h, rfl⟩
  | cons op ops ih =>
    obtain ⟨hnext, hanswer⟩ := h.operate op
    obtain ⟨hboards, hanswers⟩ := ih hnext
    refine ⟨hboards, ?_⟩
    rw [Board.answers, Board.answers, hanswer, hanswers]

end Likeness

end ChipEight
