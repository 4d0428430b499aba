import ChipEight.Listing
import ChipEight.Proofs.Instruction.Assembly
import ChipEight.Proofs.Memory.Access

namespace ChipEight

theorem inline_prefixedHex (width n : Nat) : ∀ c ∈ (prefixedHex width n).toList, Inline c := by
  rw [prefixedHex, String.toList_append, toList_upperHex]
  exact List.forall_mem_append.2
    ⟨inline_of_all (by decide), forall_mem_upperDigits (by decide) width n⟩

theorem Operand.inline_text (o : Operand) : ∀ c ∈ o.text.toList, Inline c :=
  o.forall_mem_text (by decide) (inline_of_all (by decide))

theorem Instruction.inline_name (i : Instruction) : ∀ c ∈ i.name.toList, Inline c := by
  intro c hc
  constructor
  · rintro rfl
    exact i.isName_name.not_mem rfl hc
  · rintro rfl
    exact i.isName_name.not_mem rfl hc

theorem Instruction.inline_mnemonic (i : Instruction) : ∀ c ∈ i.mnemonic.toList, Inline c := by
  rw [mnemonic]
  split
  · exact i.inline_name
  · rw [String.toList_append, String.toList_append, String.toList_intercalate, List.map_map]
    have hoperands : ∀ text ∈ i.operands.map (String.toList ∘ Operand.text), ∀ c ∈ text, Inline c :=
      List.forall_mem_map.2 fun o _ => o.inline_text
    have hblank : ∀ c ∈ " ".toList, Inline c := inline_of_all (by decide)
    refine List.forall_mem_append.2 ⟨List.forall_mem_append.2 ⟨i.inline_name, hblank⟩, ?_⟩
    exact forall_mem_intercalate (inline_of_all (by decide)) hoperands

theorem Word.inline_mnemonic (w : Word) : ∀ c ∈ w.mnemonic.toList, Inline c := by
  rw [mnemonic]
  split
  · exact Instruction.inline_mnemonic _
  · exact inline_of_all (by decide)

theorem inline_wordDigits (w : Word) : ∀ c ∈ (upperHex 4 w.toNat).toList, Inline c := by
  rw [toList_upperHex]
  exact forall_mem_upperDigits (by decide) 4 _

theorem length_wordDigits (w : Word) : (upperHex 4 w.toNat).length = 4 := by
  rw [← String.length_toList, toList_upperHex, upperDigits_eq]
  exact length_spelledDigits (by decide) w.toNat_lt

theorem toList_codeLine (address : Nat) (w : Word) (mnemonic : String) :
    (codeLine address w mnemonic).toList =
      (shortAddress address).toList ++ '\t' :: ((upperHex 4 w.toNat).toList ++
        '\t' :: mnemonic.toList) := by
  simp [codeLine]

theorem columns_codeLine (address : Nat) (w : Word) :
    columns (codeLine address w w.mnemonic).toList =
      [(shortAddress address).toList, (upperHex 4 w.toNat).toList, w.mnemonic.toList] := by
  rw [toList_codeLine, shortAddress, columns_append (inline_prefixedHex 3 address),
    columns_append (inline_wordDigits w), columns_eq w.inline_mnemonic]

theorem newline_not_mem_codeLine (address : Nat) (w : Word) :
    '\n' ∉ (codeLine address w w.mnemonic).toList := by
  rw [toList_codeLine]
  simp only [List.mem_append, List.mem_cons, not_or]
  exact ⟨newline_not_mem (inline_prefixedHex 3 address), by decide,
    newline_not_mem (inline_wordDigits w), by decide, newline_not_mem w.inline_mnemonic⟩

def readCode (line : Line) : Option Word :=
  match columns line with
  | [_, digits, _] => (readCell 4 digits).map UInt16.ofNat
  | _ => none

theorem readCode_codeLine (address : Nat) (w : Word) :
    readCode (codeLine address w w.mnemonic).toList = some w := by
  rw [readCode, columns_codeLine]
  change (readCell 4 (upperHex 4 w.toNat).toList).map UInt16.ofNat = some w
  rw [toList_upperHex, upperDigits_eq,
    readCell_spelledDigits legible_upper (by decide) w.toNat_lt, Option.map_some,
    UInt16.ofNat_toNat]

namespace Memory

variable {m : Memory} {address : Nat}

def wordAt (m : Memory) (address : Nat) : Word :=
  .ofBytes (m.get address) (m.get (address + 1))

def codeAt (m : Memory) (address : Nat) : String :=
  codeLine address (m.wordAt address) (m.wordAt address).mnemonic

theorem listingLines_succ (h : address + 1 < memorySize) (count : Nat) :
    m.listingLines address (count + 1) =
      m.codeAt address :: m.listingLines (address + 2) count := by
  rw [listingLines, m.word_of_lt h]
  rfl

theorem listingLines_of_le (h : memorySize ≤ address + 1) (count : Nat) :
    m.listingLines address count = [] := by
  cases count with
  | zero => rfl
  | succ count => rw [listingLines, m.word_of_le h]

theorem listingLines_eq (m : Memory) (address count : Nat) :
    m.listingLines address count =
      (List.range (min count ((memorySize - address) / 2))).map fun i =>
        m.codeAt (address + 2 * i) := by
  induction count generalizing address with
  | zero => simp [listingLines]
  | succ count ih =>
    rcases Nat.lt_or_ge (address + 1) memorySize with hin | hout
    · have hsize : min (count + 1) ((memorySize - address) / 2) =
          min count ((memorySize - (address + 2)) / 2) + 1 := by
        omega
      have hnext (i : Nat) : address + 2 + 2 * i = address + 2 * (i + 1) := by
        omega
      rw [listingLines_succ hin, ih, hsize, List.range_succ_eq_map, List.map_cons, List.map_map]
      simp only [hnext]
      rfl
    · have hsize : min (count + 1) ((memorySize - address) / 2) = 0 := by
        omega
      rw [listingLines_of_le hout, hsize]
      rfl

theorem listingLines_add (m : Memory) (address a b : Nat) :
    m.listingLines address (a + b) =
      m.listingLines address a ++ m.listingLines (address + 2 * a) b := by
  induction a generalizing address with
  | zero => rw [Nat.zero_add, Nat.mul_zero, Nat.add_zero, listingLines, List.nil_append]
  | succ a ih =>
    have hnext : address + 2 * (a + 1) = address + 2 + 2 * a := by
      omega
    rcases Nat.lt_or_ge (address + 1) memorySize with hin | hout
    · rw [Nat.add_right_comm, listingLines_succ hin, ih, listingLines_succ hin, hnext,
        List.cons_append]
    · have hbehind : memorySize ≤ address + 2 * (a + 1) + 1 := by
        omega
      rw [listingLines_of_le hout, listingLines_of_le hout, listingLines_of_le hbehind,
        List.append_nil]

theorem listing_add (m : Memory) (offset : UInt16) {a : Nat} (b : Nat)
    (hoffset : offset.toNat + 2 * a < UInt16.size) :
    m.listing offset (a + b) = m.listing offset a ++ m.listing (offset + .ofNat (2 * a)) b := by
  rw [listing, listingLines_add, ← toNat_add_ofNat hoffset]
  exact joinLines_append _ _

theorem newline_not_mem_codeAt (m : Memory) (address : Nat) :
    '\n' ∉ (m.codeAt address).toList :=
  newline_not_mem_codeLine address _

theorem linesOf_listing (m : Memory) (offset : UInt16) (count : Nat) :
    linesOf (m.listing offset count) =
      (m.listingLines offset.toNat count).map String.toList ++ [[]] := by
  refine linesOf_joinLines_whole ?_
  rw [listingLines_eq]
  exact List.forall_mem_map.2 fun _ _ => m.newline_not_mem_codeAt _

theorem bytes_wordAt (h : address + 1 < memorySize) :
    (m.wordAt address).bytes = m.window address 2 := by
  rw [wordAt, Word.bytes_ofBytes, window_succ (Nat.lt_of_succ_lt h), window_succ h, window_zero]

theorem flatMap_bytes_wordAt {n : Nat} (h : n ≤ (memorySize - address) / 2) :
    ((List.range n).map fun i => m.wordAt (address + 2 * i)).flatMap Word.bytes =
      m.window address (2 * n) := by
  induction n with
  | zero => exact (m.window_zero address).symm
  | succ n ih =>
    have hlast : address + 2 * n + 1 < memorySize := by
      omega
    rw [List.range_succ, List.map_append, List.flatMap_append, ih (by omega), List.map_singleton,
      List.flatMap_singleton, bytes_wordAt hlast, Nat.mul_succ, window_add]

theorem readCode_codeAt (m : Memory) (address : Nat) :
    readCode (m.codeAt address).toList = some (m.wordAt address) :=
  readCode_codeLine address _

theorem mapM_readCode_listingLines (m : Memory) (address count : Nat) :
    ((m.listingLines address count).map String.toList).mapM readCode =
      some ((List.range (min count ((memorySize - address) / 2))).map fun i =>
        m.wordAt (address + 2 * i)) := by
  rw [listingLines_eq, List.mapM_map, List.mapM_map]
  simp only [Function.comp_def, readCode_codeAt]
  exact List.mapM_pure

theorem map_ok_bytes_wordAt {n : Nat} (h : n ≤ (memorySize - address) / 2) :
    (((List.range n).map fun i => m.wordAt (address + 2 * i)).flatMap Word.bytes).map .ok =
      m.reads address (2 * n) := by
  have hinside : min (address + 2 * n) memorySize - address = 2 * n := by
    omega
  rw [flatMap_bytes_wordAt h, map_ok_window_eq, hinside]

theorem word_behind_listing {count n : Nat} (hn : n = min count ((memorySize - address) / 2))
    (h : n < count) :
    m.word (address + 2 * n) = .error (overrun (address + 2 * n)) :=
  m.word_of_le (by omega)

theorem listing_exact (m : Memory) (offset : UInt16) (count : Nat) :
    ∃ lines : List Line,
      linesOf (m.listing offset count) = lines ++ [[]] ∧
      lines.length = min count ((memorySize - offset.toNat) / 2) ∧
      (∀ i (h : i < lines.length), ∃ w : Word,
        m.word (offset.toNat + 2 * i) = .ok w ∧
        w.bytes.map .ok = m.reads (offset.toNat + 2 * i) 2 ∧
        (upperHex 4 w.toNat).length = 4 ∧
        columns lines[i] = [(shortAddress (offset.toNat + 2 * i)).toList,
          (upperHex 4 w.toNat).toList, w.mnemonic.toList]) ∧
      (lines.length < count →
        m.word (offset.toNat + 2 * lines.length) =
          .error (overrun (offset.toNat + 2 * lines.length))) ∧
      (∃ words, lines.mapM readCode = some words ∧
        (words.flatMap Word.bytes).map .ok = m.reads offset.toNat (2 * lines.length)) ∧
      ∀ a b, offset.toNat + 2 * a ≤ 65535 →
        m.listing offset (a + b) = m.listing offset a ++ m.listing (offset + .ofNat (2 * a)) b := by
  have hcount : ((m.listingLines offset.toNat count).map String.toList).length =
      min count ((memorySize - offset.toNat) / 2) := by
    rw [List.length_map, listingLines_eq, List.length_map, List.length_range]
  refine ⟨_, m.linesOf_listing offset count, hcount, fun i hi => ?_, fun h =>
    word_behind_listing hcount h, ⟨_, m.mapM_readCode_listingLines _ _, ?_⟩, fun a b hoffset =>
    m.listing_add offset b (Nat.lt_succ_of_le hoffset)⟩
  · have hin : offset.toNat + 2 * i + 1 < memorySize := by
      omega
    refine ⟨m.wordAt (offset.toNat + 2 * i), m.word_of_lt hin, ?_, ?_, ?_⟩
    · rw [bytes_wordAt hin, map_ok_window hin]
    · exact length_wordDigits _
    · simp only [List.getElem_map, listingLines_eq, List.getElem_range]
      exact columns_codeLine _ _
  · rw [hcount]
    exact map_ok_bytes_wordAt (Nat.min_le_right _ _)

theorem listing_exact_odd :
    let m := blank.store 0xFFB [0x00, 0xE0, 0xA2, 0x2A]
    let offset : UInt16 := 0xFFB
    offset.toNat + 2 * 1 ≤ 65535 ∧
      m.listing 0xFFB 6 = m.listing 0xFFB 1 ++ m.listing 0xFFD 5 ∧
      m.word 0xFFF = .error (overrun 0xFFF) ∧
      ∃ lines : List Line, linesOf (m.listing 0xFFB 6) = lines ++ [[]] ∧ lines.length = 2 ∧
        ∀ h : 1 < lines.length, columns lines[1] =
          ["0xFFD".toList, "A22A".toList, "LD I, 0x22A".toList] := by
  intro m offset
  have hfits : offset.toNat + 2 * 1 ≤ 65535 := by decide
  have hword : m.word 0xFFD = .ok 0xA22A := by
    let data : List UInt8 := [0x00, 0xE0, 0xA2, 0x2A]
    have hstored : 0xFFB + data.length ≤ memorySize := by decide
    have hpair : 2 + 1 < data.length := by decide
    have hvalue : Word.ofBytes 0xA2 0x2A = 0xA22A := by decide
    rw [← hvalue]
    exact word_store hstored hpair
  have htext : [(shortAddress (offset.toNat + 2 * 1)).toList, (upperHex 4 0xA22A).toList,
      (Word.mnemonic 0xA22A).toList] =
      ["0xFFD".toList, "A22A".toList, "LD I, 0x22A".toList] := by
    decide +kernel
  obtain ⟨lines, hlines, hcount, hcolumns, hstop, _, hadd⟩ := listing_exact m offset 6
  have htwo : lines.length = 2 := hcount.trans (by decide)
  rw [htwo] at hstop
  refine ⟨hfits, hadd 1 5 hfits, hstop (by decide), lines, hlines, htwo, fun h => ?_⟩
  obtain ⟨w, hw, _, _, hline⟩ := hcolumns 1 h
  cases hw.symm.trans hword
  exact hline.trans htext

end Memory

end ChipEight
