import ChipEight.Screen.Basic
import Mathlib.Tactic.Common

namespace ChipEight.Screen

structure Drawn (lit : Nat → Nat → Prop) (s t : Screen) (off : Bool) : Prop where
  pixel : ∀ x y, t.pixel x y ≠ s.pixel x y ↔ lit x y
  faded : ∀ x y, lit x y → s.pixel x y = true → t.fadeLevel x y = fullFade
  kept : ∀ x y, ¬(lit x y ∧ s.pixel x y = true) → t.fadeLevel x y = s.fadeLevel x y
  off : off = true ↔ ∃ x y, lit x y ∧ s.pixel x y = true

theorem Drawn.refl (s : Screen) : Drawn (fun _ _ => False) s s false := by
  refine ⟨?_, ?_, ?_, ?_⟩ <;> simp

theorem Drawn.trans {lit lit' : Nat → Nat → Prop} {s t u : Screen} {off off' : Bool}
    (h : Drawn lit s t off) (h' : Drawn lit' t u off')
    (apart : ∀ x y, lit x y → ¬lit' x y) :
    Drawn (fun x y => lit x y ∨ lit' x y) s u (off || off') := by
  have same (x y : Nat) (hl : lit' x y) : t.pixel x y = s.pixel x y := by
    by_contra hne
    exact apart x y ((h.pixel x y).1 hne) hl
  refine ⟨?_, ?_, ?_, ?_⟩
  · intro x y
    have hp := h.pixel x y
    have hp' := h'.pixel x y
    by_cases hl : lit' x y
    · rw [same x y hl] at hp'
      simp [hp', hl]
    · have hu : u.pixel x y = t.pixel x y := by simpa [hl] using hp'
      rw [hu, hp]
      simp [hl]
  · rintro x y (hl | hl) hs
    · rw [h'.kept x y (fun hc => apart x y hl hc.1)]
      exact h.faded x y hl hs
    · exact h'.faded x y hl ((same x y hl).trans hs)
  · intro x y hk
    have hk' : ¬(lit' x y ∧ t.pixel x y = true) :=
      fun hc => hk ⟨.inr hc.1, (same x y hc.1).symm.trans hc.2⟩
    rw [h'.kept x y hk', h.kept x y (fun hc => hk ⟨.inl hc.1, hc.2⟩)]
  · rw [Bool.or_eq_true, h.off, h'.off]
    constructor
    · rintro (⟨x, y, hl, hs⟩ | ⟨x, y, hl, hs⟩)
      · exact ⟨x, y, .inl hl, hs⟩
      · exact ⟨x, y, .inr hl, (same x y hl).symm.trans hs⟩
    · rintro ⟨x, y, hl | hl, hs⟩
      · exact .inl ⟨x, y, hl, hs⟩
      · exact .inr ⟨x, y, hl, (same x y hl).trans hs⟩

theorem Drawn.congr {lit lit' : Nat → Nat → Prop} {s t : Screen} {off : Bool}
    (h : Drawn lit s t off) (hl : ∀ x y, lit x y ↔ lit' x y) : Drawn lit' s t off := by
  have heq : lit = lit' := by
    funext x y
    exact propext (hl x y)
  exact heq ▸ h

def sameCell (x y x' y' : Nat) : Prop :=
  x % width = x' % width ∧ y % height = y' % height

theorem pixel_congr (s : Screen) {x y x' y' : Nat} (h : sameCell x y x' y') :
    s.pixel x y = s.pixel x' y' :=
  Grid.get_congr s.pixels h.1 h.2

theorem drawn_flip (s : Screen) (x y : Nat) (bit : Bool) :
    Drawn (fun x' y' => bit = true ∧ sameCell x y x' y') s (s.flip x y bit).1
      (s.flip x y bit).2 := by
  have hoff : (s.flip x y bit).2 = (s.pixel x y && bit) := rfl
  refine ⟨?_, ?_, ?_, ?_⟩
  · intro x' y'
    rw [pixel_flip]
    split
    · next hc => cases bit <;> simp [sameCell, hc]
    · next hc => simp [sameCell, hc]
  · rintro x' y' ⟨rfl, hc⟩ hs
    rw [fadeLevel_flip, hoff, pixel_congr s hc, hs]
    exact if_pos ⟨rfl, hc⟩
  · intro x' y' hk
    rw [fadeLevel_flip, if_neg]
    rintro ⟨hf, hc⟩
    rw [hoff, pixel_congr s hc, Bool.and_eq_true] at hf
    exact hk ⟨⟨hf.2, hc⟩, hf.1⟩
  · rw [hoff, Bool.and_eq_true]
    constructor
    · rintro ⟨hs, hb⟩
      exact ⟨x, y, ⟨hb, rfl, rfl⟩, hs⟩
    · rintro ⟨x', y', ⟨hb, hc⟩, hs⟩
      exact ⟨(pixel_congr s hc).trans hs, hb⟩

def RowLit (x y : Nat) (bits : List Bool) (x' y' : Nat) : Prop :=
  ∃ c, bits[c]? = some true ∧ sameCell (x + c) y x' y'

theorem rowLit_nil (x y x' y' : Nat) : ¬RowLit x y [] x' y' := by
  simp [RowLit]

theorem rowLit_cons (x y : Nat) (bit : Bool) (bits : List Bool) (x' y' : Nat) :
    RowLit x y (bit :: bits) x' y' ↔
      bit = true ∧ sameCell x y x' y' ∨ RowLit (x + 1) y bits x' y' := by
  constructor
  · rintro ⟨c, hbit, hc⟩
    cases c with
    | zero => exact .inl ⟨by simpa using hbit, hc⟩
    | succ c => exact .inr ⟨c, by simpa using hbit, by rwa [Nat.add_right_comm, Nat.add_assoc]⟩
  · rintro (⟨rfl, hc⟩ | ⟨c, hbit, hc⟩)
    · exact ⟨0, rfl, hc⟩
    · exact ⟨c + 1, by simpa using hbit, by rwa [Nat.add_comm c, ← Nat.add_assoc]⟩

theorem drawn_flipRow (s : Screen) (x y : Nat) {bits : List Bool} (h : bits.length ≤ width) :
    Drawn (RowLit x y bits) s (s.flipRow x y bits).1 (s.flipRow x y bits).2 := by
  induction bits generalizing s x with
  | nil => exact (Drawn.refl s).congr fun x' y' => by simp [rowLit_nil]
  | cons bit bits ih =>
    have hfirst := drawn_flip s x y bit
    have hrest := ih (s.flip x y bit).1 (x + 1) (by simp at h; omega)
    refine (hfirst.trans hrest ?_).congr fun x' y' => (rowLit_cons x y bit bits x' y').symm
    -- a row is shorter than the screen is wide, so its columns stay apart
    rintro x' y' ⟨_, hx, _⟩ ⟨c, hbit, hx', _⟩
    obtain ⟨hc, _⟩ := List.getElem?_eq_some_iff.1 hbit
    simp only [List.length_cons, width] at h hx hx'
    omega

theorem drawn_flipByte (s : Screen) (x y : Nat) (byte : UInt8) :
    Drawn (RowLit x y (bits byte)) s (s.flipByte x y byte).1 (s.flipByte x y byte).2 :=
  drawn_flipRow s x y (by simp [bits, width])

def SpriteLit (x y : Nat) (rows : List UInt8) (x' y' : Nat) : Prop :=
  ∃ r row, rows[r]? = some row ∧ RowLit x (y + r) (bits row) x' y'

theorem spriteLit_nil (x y x' y' : Nat) : ¬SpriteLit x y [] x' y' := by
  simp [SpriteLit]

theorem spriteLit_cons (x y : Nat) (row : UInt8) (rows : List UInt8) (x' y' : Nat) :
    SpriteLit x y (row :: rows) x' y' ↔
      RowLit x y (bits row) x' y' ∨ SpriteLit x (y + 1) rows x' y' := by
  constructor
  · rintro ⟨r, byte, hrow, hl⟩
    cases r with
    | zero =>
      obtain rfl : row = byte := by simpa using hrow
      exact .inl hl
    | succ r =>
      exact .inr ⟨r, byte, by simpa using hrow, by rwa [Nat.add_right_comm, Nat.add_assoc]⟩
  · rintro (hl | ⟨r, byte, hrow, hl⟩)
    · exact ⟨0, row, rfl, hl⟩
    · exact ⟨r + 1, byte, by simpa using hrow, by rwa [Nat.add_comm r, ← Nat.add_assoc]⟩

theorem drawn_flipSprite (s : Screen) (x y : Nat) {rows : List UInt8} (h : rows.length ≤ height) :
    Drawn (SpriteLit x y rows) s (s.flipSprite x y rows).1 (s.flipSprite x y rows).2 := by
  induction rows generalizing s y with
  | nil => exact (Drawn.refl s).congr fun x' y' => by simp [spriteLit_nil]
  | cons row rows ih =>
    have hfirst := drawn_flipByte s x y row
    have hrest := ih (s.flipByte x y row).1 (y + 1) (by simp at h; omega)
    refine (hfirst.trans hrest ?_).congr fun x' y' => (spriteLit_cons x y row rows x' y').symm
    -- a sprite is no higher than the screen, so its rows stay apart
    rintro x' y' ⟨_, _, _, hy⟩ ⟨r, byte, hrow, _, _, _, hy'⟩
    obtain ⟨hr, _⟩ := List.getElem?_eq_some_iff.1 hrow
    simp only [List.length_cons, height] at h hy hy'
    omega

theorem getElem?_bits (byte : UInt8) (c : Nat) :
    (bits byte)[c]? = some true ↔ c < 8 ∧ byte.toNat.testBit (7 - c) = true := by
  by_cases hc : c < 8 <;> simp [bits, hc]

theorem spriteLit_iff (x y : Nat) (rows : List UInt8) (x' y' : Nat) :
    SpriteLit x y rows x' y' ↔ ∃ r c row, rows[r]? = some row ∧ c < 8 ∧
      row.toNat.testBit (7 - c) = true ∧ sameCell (x + c) (y + r) x' y' := by
  constructor
  · rintro ⟨r, row, hrow, c, hbit, hc⟩
    rw [getElem?_bits] at hbit
    exact ⟨r, c, row, hrow, hbit.1, hbit.2, hc⟩
  · rintro ⟨r, c, row, hrow, hlt, hbit, hc⟩
    exact ⟨r, row, hrow, c, (getElem?_bits row c).2 ⟨hlt, hbit⟩, hc⟩

end ChipEight.Screen
