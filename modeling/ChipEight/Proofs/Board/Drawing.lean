import ChipEight.Proofs.Board.Effects
import ChipEight.Proofs.Memory.Access
import ChipEight.Proofs.Screen.Sprite

namespace ChipEight

namespace Board

def SpriteCovers (b : Board) (x y : RegisterName) (rows : Nat) (px py : Nat) : Prop :=
  ∃ r c, r < rows ∧ c < 8 ∧
    (b.memory.get (b.cpu.index.toNat + r)).toNat.testBit (7 - c) = true ∧
    Screen.sameCell ((b.cpu.register x).toNat + c) ((b.cpu.register y).toNat + r) px py

theorem drawn_drawnScreen (b : Board) (x y : RegisterName) {rows : Nat} (h : rows ≤ height) :
    Screen.Drawn (b.SpriteCovers x y (min rows (Memory.room b.cpu.index.toNat))) b.screen
      (b.drawnScreen x y rows).1 (b.drawnScreen x y rows).2 := by
  have hlen : (b.memory.window b.cpu.index.toNat rows).length ≤ height := by
    rw [Memory.length_window]
    omega
  refine (Screen.drawn_flipSprite b.screen _ _ hlen).congr fun px py => ?_
  rw [Screen.spriteLit_iff]
  constructor
  · rintro ⟨r, c, row, hrow, hc, hbit, hcell⟩
    obtain ⟨hr, rfl⟩ := (Memory.getElem?_window _ _ _ _ _).1 hrow
    exact ⟨r, c, hr, hc, hbit, hcell⟩
  · rintro ⟨r, c, hr, hc, hbit, hcell⟩
    exact ⟨r, c, _, (Memory.getElem?_window _ _ _ _ _).2 ⟨hr, rfl⟩, hc, hbit, hcell⟩

def drawRows (x y : RegisterName) (row : Nat) (collision : Bool) (b : Board) : Nat → Effect
  | 0 => (b.setFlag collision).proceed .next .draw
  | left + 1 =>
    match b.memory.read (b.cpu.index.toNat + row) with
    | .ok byte =>
      let (screen, off) :=
        b.screen.flipByte (b.cpu.register x).toNat ((b.cpu.register y).toNat + row) byte
      drawRows x y (row + 1) (collision || off) { b with screen } left
    | .error f => b.abort f

def rowsFrom (b : Board) (x y : RegisterName) (row left : Nat) : Screen × Bool :=
  b.screen.flipSprite (b.cpu.register x).toNat ((b.cpu.register y).toNat + row)
    (b.memory.window (b.cpu.index.toNat + row) left)

theorem rowsFrom_succ {b : Board} {row : Nat} (h : b.cpu.index.toNat + row < memorySize)
    (x y : RegisterName) (left : Nat) :
    let flipped := b.screen.flipByte (b.cpu.register x).toNat ((b.cpu.register y).toNat + row)
      (b.memory.get (b.cpu.index.toNat + row))
    let others := { b with screen := flipped.1 }.rowsFrom x y (row + 1) left
    b.rowsFrom x y row (left + 1) = (others.1, flipped.2 || others.2) := by
  intro flipped others
  rw [rowsFrom, Memory.window_succ h]
  rfl

def finishDrawing (b : Board) (rows : Nat) (screen : Screen) (collision : Bool) : Effect :=
  if b.fits rows then ({ b with screen }.setFlag collision).proceed .next .draw
  else { b with screen }.abort b.overrun

theorem drawRows_eq (b : Board) (x y : RegisterName) (collision : Bool) {row : Nat}
    (h : b.fits row = true) (left : Nat) :
    b.drawRows x y row collision left =
      b.finishDrawing (row + left) (b.rowsFrom x y row left).1
        (collision || (b.rowsFrom x y row left).2) := by
  induction left generalizing b row collision with
  | zero =>
    rw [rowsFrom, Memory.window_zero, Nat.add_zero, Screen.flipSprite, Bool.or_false]
    exact (if_pos h).symm
  | succ left ih =>
    -- A row outside of the memory ends the loop, at the one address at which drawing can fail.
    cases hnext : b.fits (row + 1) with
    | true =>
      have hin := index_of_fits_succ hnext
      let flipped := b.screen.flipByte (b.cpu.register x).toNat ((b.cpu.register y).toNat + row)
        (b.memory.get (b.cpu.index.toNat + row))
      have hrest := ih { b with screen := flipped.1 } (collision || flipped.2) hnext
      rw [Nat.add_right_comm, Bool.or_assoc] at hrest
      rw [drawRows, b.memory.read_of_lt hin, rowsFrom_succ hin]
      exact hrest
    | false =>
      obtain ⟨hout, hfault⟩ := index_of_fits_only h hnext
      have hfits : b.fits (row + (left + 1)) = false := fits_eq_false_of_le (by omega) hnext
      rw [drawRows, b.memory.read_of_le hout, rowsFrom, Memory.window_of_le hout, finishDrawing,
        hfits, hfault]
      rfl

theorem drawSprite_eq_drawRows (b : Board) (x y : RegisterName) (rows : Nat) :
    b.drawSprite x y rows = b.drawRows x y 0 false rows := by
  have hrows := b.drawRows_eq x y false b.fits_zero rows
  rw [Nat.zero_add, Bool.false_or] at hrows
  exact hrows.symm

end Board

end ChipEight
