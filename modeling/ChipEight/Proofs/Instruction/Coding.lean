import ChipEight.Instruction.Basic

namespace ChipEight

namespace Word

theorem toNat_ofNibbles (a b c d : Fin 16) :
    (ofNibbles a b c d).toNat = a.val * 0x1000 + b.val * 0x100 + c.val * 0x10 + d.val := by
  have h : a.val * 0x1000 + b.val * 0x100 + c.val * 0x10 + d.val < 2 ^ 16 := by omega
  rw [ofNibbles, UInt16.toNat_ofNat', Nat.mod_eq_of_lt h]

theorem toNat_ofByteField (a b : Fin 16) (byte : UInt8) :
    (ofByteField a b byte).toNat = a.val * 0x1000 + b.val * 0x100 + byte.toNat := by
  have h : a.val * 0x1000 + b.val * 0x100 + byte.toNat < 2 ^ 16 := by
    have := byte.toNat_lt
    omega
  rw [ofByteField, UInt16.toNat_ofNat', Nat.mod_eq_of_lt h]

theorem toNat_ofLocation (a : Fin 16) (l : Location) :
    (ofLocation a l).toNat = a.val * 0x1000 + l.val := by
  have h : a.val * 0x1000 + l.val < 2 ^ 16 := by omega
  rw [ofLocation, UInt16.toNat_ofNat', Nat.mod_eq_of_lt h]

theorem val_family (w : Word) : w.family.val = w.toNat / 0x1000 % 16 := rfl

theorem val_x (w : Word) : w.x.val = w.toNat / 0x100 % 16 := rfl

theorem val_y (w : Word) : w.y.val = w.toNat / 0x10 % 16 := rfl

theorem val_n (w : Word) : w.n.val = w.toNat % 16 := rfl

theorem val_nnn (w : Word) : w.nnn.val = w.toNat % 0x1000 := rfl

theorem toNat_nn (w : Word) : w.nn.toNat = w.toNat % 0x100 := by
  rw [nn, UInt8.toNat_ofNat']

theorem fields_ofNibbles (a b c d : Fin 16) :
    (ofNibbles a b c d).family = a ∧ (ofNibbles a b c d).x = b ∧
      (ofNibbles a b c d).y = c ∧ (ofNibbles a b c d).n = d := by
  have h := toNat_ofNibbles a b c d
  refine ⟨?_, ?_, ?_, ?_⟩
  · ext
    rw [val_family]
    omega
  · ext
    rw [val_x]
    omega
  · ext
    rw [val_y]
    omega
  · ext
    rw [val_n]
    omega

theorem fields_ofByteField (a b : Fin 16) (byte : UInt8) :
    (ofByteField a b byte).family = a ∧ (ofByteField a b byte).x = b ∧
      (ofByteField a b byte).nn = byte := by
  have h := toNat_ofByteField a b byte
  have hb := byte.toNat_lt
  refine ⟨?_, ?_, ?_⟩
  · ext
    rw [val_family]
    omega
  · ext
    rw [val_x]
    omega
  · apply UInt8.toNat_inj.1
    rw [toNat_nn]
    omega

theorem fields_ofLocation (a : Fin 16) (l : Location) :
    (ofLocation a l).family = a ∧ (ofLocation a l).nnn = l := by
  have h := toNat_ofLocation a l
  constructor
  · ext
    rw [val_family]
    omega
  · ext
    rw [val_nnn]
    omega

theorem ofNibbles_fields (w : Word) : ofNibbles w.family w.x w.y w.n = w := by
  apply UInt16.toNat_inj.1
  rw [toNat_ofNibbles, val_family, val_x, val_y, val_n]
  have := w.toNat_lt
  omega

theorem ofByteField_fields (w : Word) : ofByteField w.family w.x w.nn = w := by
  apply UInt16.toNat_inj.1
  rw [toNat_ofByteField, val_family, val_x, toNat_nn]
  have := w.toNat_lt
  omega

theorem ofLocation_fields (w : Word) : ofLocation w.family w.nnn = w := by
  apply UInt16.toNat_inj.1
  rw [toNat_ofLocation, val_family, val_nnn]
  have := w.toNat_lt
  omega

def bytes (w : Word) : List UInt8 :=
  [UInt8.ofNat (w.toNat / 0x100), UInt8.ofNat w.toNat]

theorem bytes_ofBytes (high low : UInt8) : (ofBytes high low).bytes = [high, low] := by
  have hhigh := high.toNat_lt
  have hlow := low.toNat_lt
  have hword : (ofBytes high low).toNat = high.toNat * 0x100 + low.toNat :=
    UInt16.toNat_ofNat_of_lt' (by change _ < 0x10000; omega)
  rw [bytes, hword]
  congr 1
  · rw [show (high.toNat * 0x100 + low.toNat) / 0x100 = high.toNat by omega, UInt8.ofNat_toNat]
  · congr 1
    apply UInt8.toNat_inj.1
    rw [UInt8.toNat_ofNat']
    omega

end Word

theorem Arithmetic.code_of_ofCode {c : Fin 16} {op : Arithmetic} (h : ofCode c = some op) :
    op.code = c := by
  unfold ofCode at h
  split at h <;> cases h <;> rfl

theorem Transfer.code_of_ofCode {c : UInt8} {op : Transfer} (h : ofCode c = some op) :
    op.code = c := by
  grind [ofCode, code]

namespace Instruction

theorem decode_word (i : Instruction) : decode i.word = some i := by
  cases i with
  | clear => rfl
  | ret => rfl
  | skip c => cases c <;> simp [word, decode, Word.fields_ofNibbles, Word.fields_ofByteField]
  | _ =>
    simp [word, decode, Word.fields_ofNibbles, Word.fields_ofByteField, Word.fields_ofLocation]

theorem word_of_decode {w : Word} {i : Instruction} (h : decode w = some i) : i.word = w := by
  have nibbles := Word.ofNibbles_fields w
  have byteField := Word.ofByteField_fields w
  have location := Word.ofLocation_fields w
  unfold decode at h
  split at h
  case h_1 => grind [word]
  case h_16 =>
    have family : w.family = 0xF := by grind
    obtain ⟨op, hop, rfl⟩ := Option.map_eq_some_iff.1 h
    rw [family, ← Transfer.code_of_ofCode hop] at byteField
    exact byteField
  all_goals
    rename_i family
    rw [family] at nibbles byteField location
  case h_2 | h_3 | h_11 | h_12 => cases h; exact location
  case h_4 | h_5 | h_7 | h_8 | h_13 => cases h; exact byteField
  case h_14 => cases h; exact nibbles
  case h_6 | h_10 =>
    split at h
    · next hn => cases h; rw [hn] at nibbles; exact nibbles
    · cases h
  case h_9 =>
    obtain ⟨op, hop, rfl⟩ := Option.map_eq_some_iff.1 h
    rw [← Arithmetic.code_of_ofCode hop] at nibbles
    exact nibbles
  case h_15 =>
    split at h
    · next hnn => cases h; rw [hnn] at byteField; exact byteField
    · split at h
      · next hnn => cases h; rw [hnn] at byteField; exact byteField
      · cases h

theorem decode_eq_some_iff {w : Word} {i : Instruction} : decode w = some i ↔ i.word = w :=
  ⟨word_of_decode, fun h => h ▸ decode_word i⟩

end Instruction

end ChipEight
