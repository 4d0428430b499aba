import ChipEight.Proofs.Board.Drawing
import ChipEight.Proofs.Board.Flow
import ChipEight.Proofs.Board.Operations

namespace ChipEight

theorem Screen.Drawn.restores {lit : Nat → Nat → Prop} {s t u : Screen} {off off' : Bool}
    (h : Drawn lit s t off) (h' : Drawn lit t u off') :
    (∀ x y, u.pixel x y = s.pixel x y) ∧
      (off' = true ↔ ∃ x y, lit x y ∧ s.pixel x y = false) := by
  constructor
  · intro x y
    by_cases hl : lit x y
    · have hfirst := (h.pixel x y).2 hl
      have hsecond := (h'.pixel x y).2 hl
      rw [Bool.eq_not_of_ne hsecond, Bool.eq_not_of_ne hfirst, Bool.not_not]
    · have hfirst := not_not.1 (mt (h.pixel x y).1 hl)
      have hsecond := not_not.1 (mt (h'.pixel x y).1 hl)
      rw [hsecond, hfirst]
  · rw [h'.off]
    refine exists_congr fun x => exists_congr fun y => and_congr_right fun hl => ?_
    rw [Bool.eq_not_of_ne ((h.pixel x y).2 hl), Bool.not_eq_true']

theorem toUInt8_eq_one_iff {flag : Bool} : flag.toUInt8 = 1 ↔ flag = true := by
  cases flag <;> decide

theorem toUInt8_eq_zero_iff {flag : Bool} : flag.toUInt8 = 0 ↔ flag = false := by
  cases flag <;> decide

namespace Board

variable {b b' : Board} {x y : RegisterName} {n : Fin 16}

theorem spriteCovers_congr (hindex : b'.cpu.index = b.cpu.index) (hmemory : b'.memory = b.memory)
    (hx : b'.cpu.register x = b.cpu.register x) (hy : b'.cpu.register y = b.cpu.register y)
    (rows : Nat) : b'.SpriteCovers x y rows = b.SpriteCovers x y rows := by
  funext px py
  simp only [SpriteCovers, hindex, hmemory, hx, hy]

theorem drawn_step (hrun : b.cpu.mode = .running) (hi : b.Fetches (.draw x y n))
    (hfit : b.cpu.index.toNat + n.val ≤ memorySize) :
    b.step.outcome = .ok .draw ∧ ∃ off,
      Screen.Drawn (b.SpriteCovers x y n.val) b.screen b.step.board.screen off ∧
        b.step.board.cpu.register 0xF = off.toUInt8 := by
  have hdrawn := b.drawn_drawnScreen x y (Nat.le_trans n.is_le (by decide) : n.val ≤ height)
  have hrows : min n.val (Memory.room b.cpu.index.toNat) = n.val := by
    rw [Memory.room]
    omega
  rw [hrows] at hdrawn
  rw [step_of_fetches hrun hi, execute, drawSprite_of_fits (fits_of_le hfit)]
  exact ⟨rfl, _, hdrawn, (Cpu.register_setRegister _ _ _ _).trans (if_pos rfl)⟩

theorem agreesAt_step_of_draw (hrun : b.cpu.mode = .running) (hi : b.Fetches (.draw x y n))
    (hfit : b.cpu.index.toNat + n.val ≤ memorySize) {p : Part} (hpc : p ≠ .pc)
    (hscreen : p ≠ .screen) (hflag : p ≠ .register 0xF) : b.AgreesAt b.step.board p := by
  refine agreesAt_step_of_ok hrun hi (drawn_step hrun hi hfit).1 hpc ?_
  rintro (he | he)
  · exact hscreen he
  · exact hflag he

def SpriteMeets (b : Board) (x y : RegisterName) (rows : Nat) (on : Bool) : Prop :=
  ∃ px py, b.SpriteCovers x y rows px py ∧ b.screen.pixel px py = on

theorem drawing_flips_sprite (hrun : b.cpu.mode = .running) (hi : b.Fetches (.draw x y n))
    (hfit : b.cpu.index.toNat + n.val ≤ memorySize) :
    let drawn := b.step.board
    b.step.outcome = .ok .draw ∧
      (∀ px py, drawn.screen.pixel px py ≠ b.screen.pixel px py ↔
        b.SpriteCovers x y n.val px py) ∧
      (drawn.cpu.register 0xF = 1 ↔ b.SpriteMeets x y n.val true) ∧
      (drawn.cpu.register 0xF = 0 ↔ ¬b.SpriteMeets x y n.val true) ∧
      drawn.cpu.index = b.cpu.index ∧ drawn.memory = b.memory ∧
      (x ≠ 0xF → y ≠ 0xF →
        let again := (drawn.setPc b.cpu.pc).step
        again.outcome = .ok .draw ∧
          (∀ px py, again.board.screen.pixel px py = b.screen.pixel px py) ∧
          (again.board.cpu.register 0xF = 1 ↔ b.SpriteMeets x y n.val false)) := by
  intro drawn
  obtain ⟨hok, off, hdrawn, hflag⟩ := drawn_step hrun hi hfit
  have hkept {p : Part} := agreesAt_step_of_draw hrun hi hfit (p := p)
  have hindex : drawn.cpu.index = b.cpu.index := hkept (p := .index) nofun nofun nofun
  have hmemory : drawn.memory = b.memory :=
    Memory.ext_get fun a _ => hkept (p := .memory a) nofun nofun nofun
  refine ⟨hok, hdrawn.pixel, ?_, ?_, hindex, hmemory, fun hx hy => ?_⟩
  · rw [hflag, toUInt8_eq_one_iff]
    exact hdrawn.off
  · rw [hflag, toUInt8_eq_zero_iff, ← Bool.not_eq_true, hdrawn.off]
    rfl
  · have hregister {z : RegisterName} (hz : z ≠ 0xF) : drawn.cpu.register z = b.cpu.register z :=
      hkept (p := .register z) nofun nofun fun he => hz (Part.register.inj he)
    have hmode : drawn.cpu.mode = .running :=
      Eq.trans (hkept (p := .mode) nofun nofun nofun) hrun
    have hcovers : (drawn.setPc b.cpu.pc).SpriteCovers x y n.val = b.SpriteCovers x y n.val :=
      spriteCovers_congr hindex hmemory (hregister hx) (hregister hy) n.val
    have hfit' : (drawn.setPc b.cpu.pc).cpu.index.toNat + n.val ≤ memorySize := hindex ▸ hfit
    obtain ⟨hok', off', hdrawn', hflag'⟩ :=
      drawn_step (b := drawn.setPc b.cpu.pc) hmode (hi.congr rfl hmemory) hfit'
    rw [hcovers] at hdrawn'
    obtain ⟨hpixels, hoff⟩ := hdrawn.restores hdrawn'
    refine ⟨hok', hpixels, ?_⟩
    rw [hflag', toUInt8_eq_one_iff]
    exact hoff

theorem drawing_flips_sprite_glyph :
    let b := (loaded [0xD0, 0x15]).setIndex 0x50
    (b.cpu.mode = .running ∧ b.Fetches (.draw 0 1 5) ∧
      b.cpu.index.toNat + (5 : Fin 16).val ≤ memorySize) ∧
      b.step.board.screen.pixel 0 0 = true ∧ b.step.board.cpu.register 0xF = 0 ∧
      (b.step.board.setPc b.cpu.pc).step.outcome = .ok .draw ∧
      (b.step.board.setPc b.cpu.pc).step.board.screen.pixel 0 0 = false ∧
      (b.step.board.setPc b.cpu.pc).step.board.cpu.register 0xF = 1 := by
  intro b
  have hloaded : (loaded [0xD0, 0x15]).Fetches (.draw 0 1 5) := fetches_loaded rfl
  have hi : b.Fetches (.draw 0 1 5) := hloaded.congr rfl rfl
  have hindex : b.cpu.index.toNat = 0x50 := rfl
  have hfit : b.cpu.index.toNat + (5 : Fin 16).val ≤ memorySize := by
    rw [hindex]
    decide
  have hoff (px py : Nat) : b.screen.pixel px py = false := Grid.get_fill false px py
  have hrow : b.memory.get 0x50 = 0xF0 := by
    have hkept := Memory.initial.get_store programStart.toNat 0x50 [0xD0, 0x15]
    rw [if_neg (by decide), ← memory_loaded] at hkept
    exact hkept.trans ((Memory.blank.get_store Font.location 0x50 Font.bytes).trans (by decide))
  have hcorner : b.SpriteCovers 0 1 (5 : Fin 16).val 0 0 := by
    refine ⟨0, 0, by decide, by decide, ?_, rfl, rfl⟩
    rw [hindex, hrow]
    decide
  obtain ⟨_, hflipped, _, hflag, _, _, htwice⟩ := drawing_flips_sprite rfl hi hfit
  obtain ⟨hok, hrestored, hflag'⟩ := htwice (by decide) (by decide)
  refine ⟨⟨rfl, hi, hfit⟩, ?_, hflag.2 ?_, hok, (hrestored 0 0).trans (hoff 0 0),
    hflag'.2 ⟨0, 0, hcorner, hoff 0 0⟩⟩
  · have hne := (hflipped 0 0).2 hcorner
    rwa [hoff, ne_eq, Bool.not_eq_false] at hne
  · rintro ⟨px, py, _, hon⟩
    exact absurd ((hoff px py).symm.trans hon) nofun

end Board

end ChipEight
