import ChipEight.Proofs.Instruction.Coding
import Mathlib.Algebra.Group.Nat.Defs

namespace ChipEight

inductive Field where
  | x
  | y
  | n
  | nn
  | nnn
  deriving DecidableEq, Repr

namespace Field

def mask : Field → UInt16
  | x => 0x0F00
  | y => 0x00F0
  | n => 0x000F
  | nn => 0x00FF
  | nnn => 0x0FFF

def shift : Field → UInt16
  | x => 8
  | y => 4
  | n | nn | nnn => 0

def limit : Field → Nat
  | x | y | n => 15
  | nn => 0xFF
  | nnn => 0xFFF

def read (f : Field) (w : Word) : Nat :=
  ((w &&& f.mask) >>> f.shift).toNat

def place (f : Field) (value : Nat) : Nat :=
  value <<< f.shift.toNat

theorem and_shiftRight (a shift width : Nat) :
    (a &&& (2 ^ width - 1) <<< shift) >>> shift = a / 2 ^ shift % 2 ^ width := by
  rw [Nat.shiftRight_and_distrib, Nat.shiftLeft_shiftRight, Nat.and_two_pow_sub_one_eq_mod,
    Nat.shiftRight_eq_div_pow]

theorem read_eq (f : Field) (w : Word) :
    f.read w = w.toNat / 2 ^ f.shift.toNat % (f.limit + 1) := by
  rw [read, UInt16.toNat_shiftRight, UInt16.toNat_and]
  cases f with
  | x => exact and_shiftRight w.toNat 8 4
  | y => exact and_shiftRight w.toNat 4 4
  | n => exact and_shiftRight w.toNat 0 4
  | nn => exact and_shiftRight w.toNat 0 8
  | nnn => exact and_shiftRight w.toNat 0 12

theorem read_le (f : Field) (w : Word) : f.read w ≤ f.limit := by
  rw [read_eq]
  exact Nat.le_of_lt_succ (Nat.mod_lt _ (Nat.succ_pos _))

theorem read_x (w : Word) : x.read w = w.x.val :=
  x.read_eq w

theorem read_y (w : Word) : y.read w = w.y.val :=
  y.read_eq w

theorem read_n (w : Word) : n.read w = w.n.val := by
  rw [read_eq, Word.val_n]
  simp [shift, limit]

theorem read_nn (w : Word) : nn.read w = w.nn.toNat := by
  rw [read_eq, Word.toNat_nn]
  simp [shift, limit]

theorem read_nnn (w : Word) : nnn.read w = w.nnn.val := by
  rw [read_eq, Word.val_nnn]
  simp [shift, limit]

def assemble (family : Nat) (fields : List (Field × Nat)) (code : Nat) : Nat :=
  family * 0x1000 + fields.foldr (fun (f, value) rest => f.place value + rest) code

theorem toNat_ofNibbles (family a b code : Fin 16) :
    (Word.ofNibbles family a b code).toNat =
      assemble family.val [(x, a.val), (y, b.val)] code.val := by
  simp [Word.toNat_ofNibbles, assemble, place, shift, Nat.shiftLeft_eq, Nat.add_assoc]

theorem toNat_ofThree (family a b c : Fin 16) :
    (Word.ofNibbles family a b c).toNat =
      assemble family.val [(x, a.val), (y, b.val), (n, c.val)] 0 := by
  simp [Word.toNat_ofNibbles, assemble, place, shift, Nat.shiftLeft_eq, Nat.add_assoc]

theorem toNat_ofByteField (family a : Fin 16) (byte : UInt8) :
    (Word.ofByteField family a byte).toNat =
      assemble family.val [(x, a.val), (nn, byte.toNat)] 0 := by
  simp [Word.toNat_ofByteField, assemble, place, shift, Nat.shiftLeft_eq, Nat.add_assoc]

theorem toNat_ofCode (family a : Fin 16) (code : UInt8) :
    (Word.ofByteField family a code).toNat = assemble family.val [(x, a.val)] code.toNat := by
  simp [Word.toNat_ofByteField, assemble, place, shift, Nat.shiftLeft_eq, Nat.add_assoc]

theorem toNat_ofLocation (family : Fin 16) (l : Location) :
    (Word.ofLocation family l).toNat = assemble family.val [(nnn, l.val)] 0 := by
  simp [Word.toNat_ofLocation, assemble, place, shift, Nat.shiftLeft_eq]

end Field

def Condition.fields : Condition → List (Field × Nat)
  | equals x nn | differs x nn => [(.x, x.val), (.nn, nn.toNat)]
  | same x y | distinct x y => [(.x, x.val), (.y, y.val)]
  | keyDown x | keyUp x => [(.x, x.val)]

namespace Instruction

def fields : Instruction → List (Field × Nat)
  | clear | ret => []
  | jump nnn | call nnn | loadIndex nnn | jumpOffset nnn => [(.nnn, nnn.val)]
  | skip condition => condition.fields
  | load x nn | add x nn | random x nn => [(.x, x.val), (.nn, nn.toNat)]
  | arithmetic _ x y => [(.x, x.val), (.y, y.val)]
  | draw x y n => [(.x, x.val), (.y, y.val), (.n, n.val)]
  | transfer _ x => [(.x, x.val)]

def family : Instruction → Nat
  | clear | ret => 0x0
  | jump _ => 0x1
  | call _ => 0x2
  | skip (.equals ..) => 0x3
  | skip (.differs ..) => 0x4
  | skip (.same ..) => 0x5
  | load .. => 0x6
  | add .. => 0x7
  | arithmetic .. => 0x8
  | skip (.distinct ..) => 0x9
  | loadIndex _ => 0xA
  | jumpOffset _ => 0xB
  | random .. => 0xC
  | draw .. => 0xD
  | skip (.keyDown _) | skip (.keyUp _) => 0xE
  | transfer .. => 0xF

def subCode : Instruction → Nat
  | clear => 0xE0
  | ret => 0xEE
  | arithmetic op _ _ => op.code.val
  | skip (.keyDown _) => 0x9E
  | skip (.keyUp _) => 0xA1
  | transfer op _ => op.code.toNat
  | _ => 0

def assembled (i : Instruction) : Nat :=
  Field.assemble i.family i.fields i.subCode

theorem toNat_word (i : Instruction) : i.word.toNat = i.assembled := by
  cases i with
  | clear | ret => rfl
  | jump nnn | call nnn | loadIndex nnn | jumpOffset nnn => exact Field.toNat_ofLocation _ nnn
  | skip condition =>
    cases condition with
    | equals x nn | differs x nn => exact Field.toNat_ofByteField _ x nn
    | same x y | distinct x y => exact Field.toNat_ofNibbles _ x y 0
    | keyDown x | keyUp x => exact Field.toNat_ofCode _ x _
  | load x nn | add x nn | random x nn => exact Field.toNat_ofByteField _ x nn
  | arithmetic op x y => exact Field.toNat_ofNibbles _ x y op.code
  | draw x y n => exact Field.toNat_ofThree _ x y n
  | transfer op x => exact Field.toNat_ofCode _ x op.code

theorem fields_word (i : Instruction) : ∀ p ∈ i.fields, p.2 = p.1.read i.word := by
  cases i with
  | clear | ret => simp [fields]
  | skip condition =>
    cases condition <;>
      simp [fields, Condition.fields, word, Field.read_x, Field.read_y, Field.read_nn,
        Word.fields_ofNibbles, Word.fields_ofByteField]
  | _ =>
    simp [fields, word, Field.read_x, Field.read_y, Field.read_n, Field.read_nn, Field.read_nnn,
      Word.fields_ofNibbles, Word.fields_ofByteField, Word.fields_ofLocation]

variable {w : Word} {i : Instruction}

theorem fields_of_decode (h : decode w = some i) :
    ∀ p ∈ i.fields, p.2 = p.1.read w ∧ p.2 ≤ p.1.limit := by
  intro p hp
  have hread : p.2 = p.1.read w := word_of_decode h ▸ i.fields_word p hp
  exact ⟨hread, hread ▸ p.1.read_le w⟩

theorem assembled_of_decode (h : decode w = some i) : i.assembled = w.toNat := by
  rw [← toNat_word, word_of_decode h]

end Instruction

end ChipEight
