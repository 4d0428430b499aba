import ChipEight.Instruction.Mnemonic
import ChipEight.Proofs.Instruction.Fields
import ChipEight.Proofs.Text.Columns
import ChipEight.Proofs.Text.Numerals

namespace ChipEight

def IsName (line : Line) : Prop :=
  line ≠ [] ∧ line.all Char.isUpper = true

instance (line : Line) : Decidable (IsName line) :=
  inferInstanceAs (Decidable (_ ∧ _))

theorem Instruction.isName_name (i : Instruction) : IsName i.name.toList := by
  cases i with
  | skip condition => cases condition <;> (dsimp only [name, Condition.name]; decide)
  | arithmetic op x y => cases op <;> (dsimp only [name, Arithmetic.name]; decide)
  | transfer op x => cases op <;> (dsimp only [name, Transfer.name]; decide)
  | _ =>
    dsimp only [name]
    decide

theorem IsName.not_mem {line : Line} {c : Char} (h : IsName line) (hc : c.isUpper = false) :
    c ∉ line := by
  intro hmem
  simp [List.all_eq_true.1 h.2 c hmem] at hc

theorem toList_registerText (x : RegisterName) :
    (registerText x).toList = ['V', x.val.digitChar.toUpper] := by
  have hdigits : Nat.toDigits 16 x.val = [x.val.digitChar] := Nat.toDigits_of_lt_base x.isLt
  simp [registerText, upperDigits, hdigits, List.leftpad]

theorem Operand.toList_immediate (value : Nat) :
    (immediate value).text.toList = '0' :: 'x' :: upperDigits 1 value := by
  simp [text, prefixedHex]

def readRegister (digit : Char) : Option RegisterName :=
  (digit? 16 digit).map (Fin.ofNat 16)

theorem readRegister_eq (x : RegisterName) : readRegister x.val.digitChar.toUpper = some x := by
  have hdigit : digit? 16 x.val.digitChar.toUpper = some x.val := legible_upper x.val x.isLt
  simp [readRegister, hdigit]

def readHex (digits : Line) : Option Nat :=
  (readMagnitude 16 (16 ^ digits.length) .tooLarge digits).toOption

theorem readHex_upperDigits (n : Nat) : readHex (upperDigits 1 n) = some n := by
  have hlength : n < 16 ^ (upperDigits 1 n).length := by
    rw [upperDigits_eq, spelledDigits, List.length_leftpad, List.length_map]
    refine Nat.lt_of_lt_of_le ?_ (Nat.pow_le_pow_right (by decide) (Nat.le_max_right _ _))
    exact (Nat.length_toDigits_le_iff (by decide) Nat.length_toDigits_pos).1 (Nat.le_refl _)
  rw [readHex, readMagnitude_upperDigits 1 (Nat.le_of_lt hlength)]
  rfl

def readOperand : Line → Option Operand
  | '0' :: 'x' :: digits => (readHex digits).map .immediate
  | ['V', x] => (readRegister x).map .register
  | ['V', x, ' ', '\x7b'] => (readRegister x).map .shifted
  | ['V', y, '\x7d'] => (readRegister y).map .unused
  | ['I'] => some .index
  | ['[', 'I', ']'] => some .indirect
  | ['D', 'T'] => some .delayTimer
  | ['S', 'T'] => some .soundTimer
  | ['K'] => some .key
  | ['F'] => some .glyph
  | ['B'] => some .digits
  | _ => none

theorem readOperand_text (o : Operand) : readOperand o.text.toList = some o := by
  cases o with
  | register x =>
    rw [Operand.text, toList_registerText]
    exact congrArg (Option.map Operand.register) (readRegister_eq x)
  | immediate value =>
    rw [Operand.toList_immediate]
    exact congrArg (Option.map Operand.immediate) (readHex_upperDigits value)
  | shifted x =>
    have htext : (Operand.shifted x).text.toList = ['V', x.val.digitChar.toUpper, ' ', '\x7b'] := by
      simp [Operand.text, toList_registerText]
    rw [htext]
    exact congrArg (Option.map Operand.shifted) (readRegister_eq x)
  | unused y =>
    have htext : (Operand.unused y).text.toList = ['V', y.val.digitChar.toUpper, '\x7d'] := by
      simp [Operand.text, toList_registerText]
    rw [htext]
    exact congrArg (Option.map Operand.unused) (readRegister_eq y)
  | _ => rfl

def operandMarks : Line :=
  ['V', 'x', 'I', '[', ']', 'D', 'S', 'T', 'K', 'F', 'B', ' ', '\x7b', '\x7d']

theorem Operand.forall_mem_text {P : Char → Prop} (hdigit : ∀ d < 16, P d.digitChar.toUpper)
    (hmark : ∀ c ∈ operandMarks, P c) (o : Operand) : ∀ c ∈ o.text.toList, P c := by
  have hmarks (marks : Line) (hsub : marks ⊆ operandMarks) : ∀ c ∈ marks, P c :=
    fun c hc => hmark c (hsub hc)
  have hregister (x : RegisterName) : ∀ c ∈ (registerText x).toList, P c := by
    rw [toList_registerText]
    simpa using ⟨hmark 'V' (by decide), hdigit x.val x.isLt⟩
  cases o with
  | register x => exact hregister x
  | shifted x | unused x =>
    rw [text, String.toList_append]
    exact List.forall_mem_append.2 ⟨hregister x, hmarks _ (by decide)⟩
  | immediate value =>
    rw [toList_immediate]
    exact List.forall_mem_cons.2 ⟨hdigit 0 (by decide),
      List.forall_mem_cons.2 ⟨hmark 'x' (by decide), forall_mem_upperDigits hdigit 1 value⟩⟩
  | _ => exact hmarks _ (by decide)

theorem comma_not_mem_text (o : Operand) : ',' ∉ o.text.toList :=
  fun h => o.forall_mem_text (P := (· ≠ ',')) (by decide) (by simp [operandMarks]) ',' h rfl

def ofAssembly (name : String) : List Operand → Option Instruction
  | [] =>
    match name with
    | "CLS" => some .clear
    | "RET" => some .ret
    | _ => none
  | [.immediate nnn] =>
    match name with
    | "JP" => some (.jump (Word.nnn (.ofNat nnn)))
    | "CALL" => some (.call (Word.nnn (.ofNat nnn)))
    | _ => none
  | [.register x] =>
    match name with
    | "SKP" => some (.skip (.keyDown x))
    | "SKNP" => some (.skip (.keyUp x))
    | _ => none
  | [.register x, .immediate value] =>
    match name with
    | "SE" => some (.skip (.equals x (.ofNat value)))
    | "SNE" => some (.skip (.differs x (.ofNat value)))
    | "LD" => some (.load x (.ofNat value))
    | "ADD" => some (.add x (.ofNat value))
    | "RND" => some (.random x (.ofNat value))
    | "JP" => some (.jumpOffset (Word.nnn (.ofNat value)))
    | _ => none
  | [.register x, .register y] =>
    match name with
    | "SE" => some (.skip (.same x y))
    | "SNE" => some (.skip (.distinct x y))
    | "LD" => some (.arithmetic .assign x y)
    | "OR" => some (.arithmetic .or x y)
    | "AND" => some (.arithmetic .and x y)
    | "XOR" => some (.arithmetic .xor x y)
    | "ADD" => some (.arithmetic .add x y)
    | "SUB" => some (.arithmetic .subtract x y)
    | "SUBN" => some (.arithmetic .subtractFrom x y)
    | _ => none
  | [.shifted x, .unused y] =>
    match name with
    | "SHR" => some (.arithmetic .shiftRight x y)
    | "SHL" => some (.arithmetic .shiftLeft x y)
    | _ => none
  | [.register x, .register y, .immediate n] =>
    if name = "DRW" then some (.draw x y (.ofNat _ n)) else none
  | [.index, .immediate nnn] =>
    if name = "LD" then some (.loadIndex (Word.nnn (.ofNat nnn))) else none
  | [.index, .register x] => if name = "ADD" then some (.transfer .addToIndex x) else none
  | [.register x, .delayTimer] => if name = "LD" then some (.transfer .readDelay x) else none
  | [.register x, .key] => if name = "LD" then some (.transfer .awaitKey x) else none
  | [.delayTimer, .register x] => if name = "LD" then some (.transfer .setDelay x) else none
  | [.soundTimer, .register x] => if name = "LD" then some (.transfer .setSound x) else none
  | [.glyph, .register x] => if name = "LD" then some (.transfer .pointToGlyph x) else none
  | [.digits, .register x] => if name = "LD" then some (.transfer .storeDigits x) else none
  | [.indirect, .register x] => if name = "LD" then some (.transfer .storeRegisters x) else none
  | [.register x, .indirect] => if name = "LD" then some (.transfer .loadRegisters x) else none
  | _ => none

theorem nnn_ofNat (l : Location) : Word.nnn (.ofNat l.val) = l := by
  have hl : l.val % 2 ^ 16 = l.val := Nat.mod_eq_of_lt (Nat.lt_trans l.isLt (by decide))
  apply Fin.ext
  rw [Word.val_nnn, UInt16.toNat_ofNat', hl, Nat.mod_eq_of_lt l.isLt]

theorem ofAssembly_operands (i : Instruction) : ofAssembly i.name i.operands = some i := by
  cases i with
  | skip condition =>
    cases condition <;>
      simp [Instruction.name, Condition.name, Instruction.operands, Condition.operands, ofAssembly]
  | arithmetic op x y =>
    cases op <;>
      simp [Instruction.name, Arithmetic.name, Instruction.operands, Arithmetic.operands,
        ofAssembly]
  | transfer op x =>
    cases op <;>
      simp [Instruction.name, Transfer.name, Instruction.operands, Transfer.operands, ofAssembly]
  | _ => simp [Instruction.name, Instruction.operands, ofAssembly, nnn_ofNat]

theorem cons_intercalate {pieces : List Line} (h : pieces ≠ []) :
    ' ' :: [',', ' '].intercalate pieces = [','].intercalate (pieces.map (' ' :: ·)) := by
  induction pieces with
  | nil => exact absurd rfl h
  | cons piece pieces ih =>
    cases pieces with
    | nil => simp
    | cons piece' pieces => simpa using ih (List.cons_ne_nil _ _)

def operandPiece (o : Operand) : Line :=
  ' ' :: o.text.toList

theorem toList_mnemonic (i : Instruction) :
    i.mnemonic.toList = i.name.toList ++ [','].intercalate (i.operands.map operandPiece) := by
  rw [Instruction.mnemonic]
  split
  · next hnone => simp [hnone]
  · next hsome =>
    have htexts : i.operands.map (String.toList ∘ Operand.text) ≠ [] := by simpa using hsome
    have hpieces : (i.operands.map (String.toList ∘ Operand.text)).map (' ' :: ·) =
        i.operands.map operandPiece := List.map_map
    rw [String.toList_append, String.toList_append, String.toList_intercalate, List.map_map,
      ← hpieces, ← cons_intercalate htexts]
    simp

def readOperands (line : Line) : Option (List Operand) :=
  if line = [] then some []
  else (line.splitOn ',').mapM fun piece => readOperand piece.tail

theorem readOperands_intercalate (os : List Operand) :
    readOperands ([','].intercalate (os.map operandPiece)) = some os := by
  cases os with
  | nil => rfl
  | cons o os =>
    have hpieces : ∀ piece ∈ (o :: os).map operandPiece, ',' ∉ piece := by
      refine List.forall_mem_map.2 fun o _ => ?_
      simp [operandPiece, comma_not_mem_text o]
    have hne : [','].intercalate ((o :: os).map operandPiece) ≠ [] := by
      cases os <;> simp [operandPiece]
    rw [readOperands, if_neg hne, List.splitOn_intercalate ',' hpieces (by simp)]
    exact mapM_map_of_reads fun o _ => readOperand_text o

def readMnemonic (line : Line) : Option Instruction := do
  let operands ← readOperands (line.dropWhile (· ≠ ' '))
  ofAssembly (String.ofList (line.takeWhile (· ≠ ' '))) operands

theorem cut_at_blank {name rest : Line} (hname : ' ' ∉ name) (hrest : ∀ c ∈ rest.head?, c = ' ') :
    (name ++ rest).takeWhile (· ≠ ' ') = name ∧ (name ++ rest).dropWhile (· ≠ ' ') = rest := by
  have hletters : ∀ c ∈ name, decide (c ≠ ' ') = true := by
    intro c hc
    simpa using fun h : c = ' ' => hname (h ▸ hc)
  rw [List.takeWhile_append_of_pos hletters, List.dropWhile_append_of_pos hletters]
  cases rest with
  | nil => simp
  | cons c rest => simp [hrest c rfl]

theorem readMnemonic_mnemonic (i : Instruction) : readMnemonic i.mnemonic.toList = some i := by
  have hname : ' ' ∉ i.name.toList := i.isName_name.not_mem rfl
  have hrest : ∀ c ∈ ([','].intercalate (i.operands.map operandPiece)).head?, c = ' ' := by
    rcases i.operands with _ | ⟨o, _ | ⟨o', os⟩⟩ <;> simp [operandPiece]
  obtain ⟨htake, hdrop⟩ := cut_at_blank hname hrest
  rw [readMnemonic, toList_mnemonic, htake, hdrop, readOperands_intercalate]
  simp [ofAssembly_operands]

theorem mnemonic_ne_unknown (i : Instruction) : i.mnemonic ≠ unknownMnemonic := by
  intro h
  obtain ⟨c, rest, hname⟩ := List.exists_cons_of_ne_nil i.isName_name.1
  have hcut := toList_mnemonic i
  rw [h, hname] at hcut
  obtain rfl : '[' = c := by simpa [unknownMnemonic] using congrArg List.head? hcut
  have hmem : '[' ∈ i.name.toList := by simp [hname]
  exact i.isName_name.not_mem rfl hmem

namespace Word

variable {w w' : Word} {i : Instruction}

theorem mnemonic_of_decode (h : Instruction.decode w = some i) : w.mnemonic = i.mnemonic := by
  rw [mnemonic, h]

theorem mnemonic_eq_unknown_iff : w.mnemonic = unknownMnemonic ↔ Instruction.decode w = none := by
  rw [mnemonic]
  cases Instruction.decode w with
  | none => simp
  | some i => simp [mnemonic_ne_unknown i]

theorem eq_of_decode (hw : Instruction.decode w = some i) (hw' : Instruction.decode w' = some i) :
    w = w' :=
  (Instruction.word_of_decode hw).symm.trans (Instruction.word_of_decode hw')

theorem eq_of_mnemonic (hw : Instruction.decode w ≠ none) (hw' : Instruction.decode w' ≠ none)
    (h : w.mnemonic = w'.mnemonic) : w = w' := by
  obtain ⟨i, hi⟩ := Option.ne_none_iff_exists'.1 hw
  obtain ⟨j, hj⟩ := Option.ne_none_iff_exists'.1 hw'
  rw [mnemonic_of_decode hi, mnemonic_of_decode hj] at h
  have hread := readMnemonic_mnemonic i
  rw [h, readMnemonic_mnemonic] at hread
  exact eq_of_decode hi (hread ▸ hj)

theorem mnemonics_identify_words :
    (∀ i : Instruction, readMnemonic i.mnemonic.toList = some i) ∧
    (∀ w w' : Word, Instruction.decode w ≠ none → Instruction.decode w' ≠ none →
      w.mnemonic = w'.mnemonic → w = w') ∧
    (∀ w w' : Word, Instruction.decode w ≠ none →
      Instruction.decode w = Instruction.decode w' → w = w') ∧
    (∀ (w : Word) (i : Instruction), Instruction.decode w = some i →
      (∀ p ∈ i.fields, p.2 = p.1.read w ∧ p.2 ≤ p.1.limit) ∧ i.assembled = w.toNat) ∧
    ∀ w : Word, w.mnemonic = unknownMnemonic ↔ Instruction.decode w = none := by
  refine ⟨readMnemonic_mnemonic, fun w w' => eq_of_mnemonic, fun w w' hw h => ?_,
    fun w i h => ⟨Instruction.fields_of_decode h, Instruction.assembled_of_decode h⟩,
    fun w => mnemonic_eq_unknown_iff⟩
  obtain ⟨i, hi⟩ := Option.ne_none_iff_exists'.1 hw
  exact eq_of_decode hi (h ▸ hi)

theorem mnemonics_identify_words_shift :
    let w : Word := 0x8AB6
    let i : Instruction := .arithmetic .shiftRight 0xA 0xB
    (Instruction.decode w ≠ none ∧ w.mnemonic = "SHR VA \x7b, VB\x7d" ∧
      w = .ofBytes 0x8A 0xB6) ∧
    Instruction.decode w = some i ∧ (∀ p ∈ i.fields, p.2 = p.1.read w ∧ p.2 ≤ p.1.limit) ∧
      i.assembled = 0x8AB6 := by
  intro w i
  have hdecode : Instruction.decode w = some i := by decide
  have hw : Instruction.decode w ≠ none := by simp [hdecode]
  have hbytes : Instruction.decode (.ofBytes 0x8A 0xB6) ≠ none := by decide
  have htext : w.mnemonic = "SHR VA \x7b, VB\x7d" := by decide +kernel
  have htext' : (Word.ofBytes 0x8A 0xB6).mnemonic = "SHR VA \x7b, VB\x7d" := by decide +kernel
  obtain ⟨_, hmnemonic, _, hfields, _⟩ := mnemonics_identify_words
  exact ⟨⟨hw, htext, hmnemonic w _ hw hbytes (htext.trans htext'.symm)⟩, hdecode,
    hfields w i hdecode⟩

end Word

end ChipEight
