import ChipEight.Listing
import ChipEight.Proofs.Memory.Access
import ChipEight.Proofs.Text.Columns
import ChipEight.Proofs.Text.Numerals

namespace ChipEight

theorem isToken_lowerHex (width n : Nat) : IsToken (lowerHex width n).toList where
  ne_nil := by
    rw [toList_lowerHex, lowerDigits_eq]
    exact spelledDigits_ne_nil id width n
  not_blank := by
    rw [toList_lowerHex]
    exact not_mem_lowerDigits (by decide) width n

namespace Memory

variable {m : Memory} {bytes : List UInt8}

def dumpRow (address : Nat) (bytes : List UInt8) : String :=
  "0x" ++ lowerHex 3 address ++ "\t" ++ dumpCells bytes

def dumpRows (address : Nat) (pieces : List (List UInt8)) : List String :=
  pieces.mapIdx fun j bytes => dumpRow (address + 16 * j) bytes

theorem dumpLines_eq (address : Nat) (pieces : List (List UInt8)) :
    dumpLines address pieces = (dumpRows address pieces).map (· ++ "\n") := by
  induction pieces generalizing address with
  | nil => rfl
  | cons bytes rest ih =>
    have hnext (j : Nat) : address + dumpWidth + 16 * j = address + 16 * (j + 1) := by
      rw [dumpWidth]
      omega
    rw [dumpLines, ih, dumpRows, dumpRows, List.mapIdx_cons, List.map_cons]
    simp only [hnext]
    rfl

theorem dump_eq (m : Memory) (offset : UInt16) (length : Nat) :
    m.dump offset length =
      joinLines (dumpRows offset.toNat (chunks 16 (m.window offset.toNat length))) := by
  rw [dump, dumpLines_eq]
  rfl

theorem dumpRows_append (address : Nat) (pieces pieces' : List (List UInt8)) :
    dumpRows address (pieces ++ pieces') =
      dumpRows address pieces ++ dumpRows (address + 16 * pieces.length) pieces' := by
  rw [dumpRows, List.mapIdx_append]
  refine congrArg (dumpRows address pieces ++ ·) (List.mapIdx_eq_mapIdx_iff.2 fun j _ => ?_)
  congr 1
  omega

def byteCell (byte : UInt8) : Line :=
  (lowerHex 2 byte.toNat).toList

theorem byteCell_eq (byte : UInt8) : byteCell byte = spelledDigits id 2 byte.toNat := by
  rw [byteCell, toList_lowerHex, lowerDigits_eq]

theorem byteCell_ne_nil (byte : UInt8) : byteCell byte ≠ [] := by
  rw [byteCell_eq]
  exact spelledDigits_ne_nil id 2 _

theorem forall_mem_byteCell {P : Char → Prop} (hdigit : ∀ d < 16, P d.digitChar) (byte : UInt8) :
    ∀ c ∈ byteCell byte, P c := by
  rw [byteCell, toList_lowerHex]
  exact forall_mem_lowerDigits hdigit 2 _

theorem isToken_byteCell (byte : UInt8) : IsToken (byteCell byte) :=
  isToken_lowerHex 2 byte.toNat

theorem toList_dumpCells (bytes : List UInt8) :
    (dumpCells bytes).toList =
      [' ', ' '].intercalate ((chunks 4 bytes).map fun group =>
        [' '].intercalate (group.map byteCell)) := by
  rw [dumpCells, String.toList_intercalate, List.map_map]
  refine congrArg _ (List.map_congr_left fun group _ => ?_)
  rw [Function.comp_apply, String.toList_intercalate, List.map_map]
  rfl

theorem tokens_dumpCells (bytes : List UInt8) :
    tokens (dumpCells bytes).toList = bytes.map byteCell := by
  have hgroup (group : List UInt8) : tokens ([' '].intercalate (group.map byteCell)) =
      group.map byteCell :=
    tokens_intercalate (List.forall_mem_map.2 fun byte _ => isToken_byteCell byte)
  rw [toList_dumpCells, tokens_intercalate_blanks, List.flatMap_map]
  simp only [hgroup]
  rw [List.flatMap_def, ← List.map_flatten, flatten_chunks]

theorem inline_dumpCells (bytes : List UInt8) : ∀ c ∈ (dumpCells bytes).toList, Inline c := by
  rw [toList_dumpCells]
  refine forall_mem_intercalate (inline_of_all rfl) (List.forall_mem_map.2 fun group _ => ?_)
  refine forall_mem_intercalate (inline_of_all rfl) (List.forall_mem_map.2 fun byte _ => ?_)
  exact forall_mem_byteCell (by decide) byte

theorem endsIn_dumpCells {P : Char → Prop} (hdigit : ∀ d < 16, P d.digitChar) (hne : bytes ≠ []) :
    EndsIn P (dumpCells bytes).toList := by
  rw [toList_dumpCells]
  refine endsIn_intercalate (mt List.map_eq_nil_iff.1 (chunks_ne_nil (by decide) hne))
    (List.forall_mem_map.2 fun group hgroup => ?_)
  refine endsIn_intercalate (mt List.map_eq_nil_iff.1 (ne_nil_of_mem_chunks hgroup))
    (List.forall_mem_map.2 fun byte _ => ?_)
  exact endsIn_of_forall (byteCell_ne_nil byte) (forall_mem_byteCell hdigit byte)

def addressColumn (address : Nat) : Line :=
  ("0x" ++ lowerHex 3 address).toList

theorem inline_addressColumn (address : Nat) : ∀ c ∈ addressColumn address, Inline c := by
  rw [addressColumn, String.toList_append, toList_lowerHex]
  exact List.forall_mem_append.2
    ⟨inline_of_all (by decide), forall_mem_lowerDigits (by decide) 3 address⟩

theorem toList_dumpRow (address : Nat) (bytes : List UInt8) :
    (dumpRow address bytes).toList =
      addressColumn address ++ '\t' :: (dumpCells bytes).toList := by
  simp [dumpRow, addressColumn]

def cellsOf (line : Line) : List Line :=
  ((columns line).drop 1).flatMap tokens

theorem cellsOf_dumpRow (address : Nat) (bytes : List UInt8) :
    cellsOf (dumpRow address bytes).toList = bytes.map byteCell := by
  rw [cellsOf, toList_dumpRow, columns_append (inline_addressColumn address),
    columns_eq (inline_dumpCells bytes), List.drop_succ_cons, List.drop_zero,
    List.flatMap_singleton, tokens_dumpCells]

def readByte (cell : Line) : Option UInt8 :=
  (readCell 2 cell).map UInt8.ofNat

theorem readByte_byteCell (byte : UInt8) : readByte (byteCell byte) = some byte := by
  rw [readByte, byteCell_eq, readCell_spelledDigits legible_lower (by decide) byte.toNat_lt,
    Option.map_some, UInt8.ofNat_toNat]

theorem newline_not_mem_dumpRow (address : Nat) (bytes : List UInt8) :
    '\n' ∉ (dumpRow address bytes).toList := by
  rw [toList_dumpRow, List.mem_append, List.mem_cons, not_or, not_or]
  exact ⟨newline_not_mem (inline_addressColumn address), by decide,
    newline_not_mem (inline_dumpCells bytes)⟩

theorem linesOf_dump (m : Memory) (offset : UInt16) (length : Nat) :
    linesOf (m.dump offset length) =
      (dumpRows offset.toNat (chunks 16 (m.window offset.toNat length))).map String.toList
        ++ [[]] := by
  rw [dump_eq]
  refine linesOf_joinLines_whole fun row hrow => ?_
  obtain ⟨j, hj, rfl⟩ := List.mem_mapIdx.1 hrow
  exact newline_not_mem_dumpRow _ _

theorem flatMap_cellsOf_dumpRows (address : Nat) (pieces : List (List UInt8)) :
    ((dumpRows address pieces).map String.toList).flatMap cellsOf =
      pieces.flatten.map byteCell := by
  have hcells : ((dumpRows address pieces).map String.toList).map cellsOf =
      pieces.map (List.map byteCell) := by
    refine List.ext_getElem (by simp [dumpRows]) fun j _ _ => ?_
    simp [dumpRows, cellsOf_dumpRow]
  rw [List.flatMap_def, hcells, List.map_flatten]

theorem prefix_dumpRow (address : Nat) (bytes : List UInt8) :
    ("0x" ++ lowerHex 3 address ++ "\t").toList <+: (dumpRow address bytes).toList :=
  ⟨(dumpCells bytes).toList, String.toList_append.symm⟩

theorem endsIn_dumpRow {P : Char → Prop} (hdigit : ∀ d < 16, P d.digitChar) (hne : bytes ≠ [])
    (address : Nat) : EndsIn P (dumpRow address bytes).toList := by
  rw [dumpRow, String.toList_append]
  exact (endsIn_dumpCells hdigit hne).append _

theorem dump_add (m : Memory) (offset : UInt16) {a : Nat} (b : Nat) (ha : 16 ∣ a)
    (hoffset : offset.toNat + a < UInt16.size) :
    m.dump offset (a + b) = m.dump offset a ++ m.dump (offset + .ofNat a) b := by
  rw [dump_eq, dump_eq, dump_eq, toNat_add_ofNat hoffset, window_add, ← joinLines_append]
  rcases Nat.lt_or_ge memorySize (offset.toNat + a) with hout | hin
  · rw [window_of_le (Nat.le_of_lt hout), chunks, List.append_nil]
    exact congrArg joinLines (List.append_nil _).symm
  · have hlength : (m.window offset.toNat a).length = a := by
      rw [length_window]
      omega
    have hcount : 16 * (chunks 16 (m.window offset.toNat a)).length = a := by
      rw [length_chunks (by decide), hlength]
      omega
    rw [chunks_append (by decide) (hlength.symm ▸ ha), dumpRows_append, hcount]

def dumpEnd (offset length : UInt64) : Nat :=
  min ((checkedSum offset length).getD (.ofNat lastAddress)).toNat memorySize

theorem dumpEnd_eq (offset length : UInt64) :
    dumpEnd offset length = min (offset.toNat + length.toNat) memorySize := by
  rw [dumpEnd]
  rcases Nat.lt_or_ge (offset.toNat + length.toNat) UInt64.size with h | h
  · obtain ⟨hsum, hstop⟩ := checkedSum_of_lt h
    rw [hsum, Option.getD_some, hstop]
  · have hsum : memorySize ≤ offset.toNat + length.toNat := Nat.le_trans (by decide) h
    rw [checkedSum_of_le h, Option.getD_none, Nat.min_eq_right hsum]
    decide

def checkedDump (m : Memory) (offset : UInt16) (length : UInt64) : String :=
  String.join (dumpLines offset.toNat
    (chunks dumpWidth (m.bytes.extract offset.toNat (dumpEnd offset.toUInt64 length)).toList))

theorem checkedDump_eq (m : Memory) (offset : UInt16) (length : UInt64) :
    m.checkedDump offset length = m.dump offset length.toNat := by
  have hoffset : offset.toUInt64.toNat = offset.toNat := UInt16.toNat_toUInt64 offset
  have hwindow : (m.bytes.extract offset.toNat (dumpEnd offset.toUInt64 length)).toList =
      m.window offset.toNat length.toNat := by
    rw [dumpEnd_eq, hoffset, window]
    exact List.ext_getElem (by simp) fun i _ _ => by simp
  rw [checkedDump, hwindow, dump]

theorem dump_exact (m : Memory) (offset : UInt16) (length : Nat) :
    let n := min (offset.toNat + length) memorySize - offset.toNat
    ∃ lines : List Line,
      linesOf (m.dump offset length) = lines ++ [[]] ∧
      lines.length = (n + 15) / 16 ∧
      (∀ j (h : j < lines.length),
        ("0x" ++ lowerHex 3 (offset.toNat + 16 * j) ++ "\t").toList <+: lines[j]) ∧
      (∀ line ∈ lines, EndsIn (fun c => c.isAlphanum = true ∧ c.isWhitespace = false) line) ∧
      (∃ bytes, (lines.flatMap cellsOf).mapM readByte = some bytes ∧
        bytes.map .ok = m.reads offset.toNat n) ∧
      (∀ length : UInt64, m.checkedDump offset length = m.dump offset length.toNat) ∧
      ∀ a b, 16 ∣ a → offset.toNat + a ≤ 65535 →
        m.dump offset (a + b) = m.dump offset a ++ m.dump (offset + .ofNat a) b := by
  intro n
  have hlength : (m.window offset.toNat length).length = n := m.length_window _ _
  refine ⟨_, m.linesOf_dump offset length, ?_, fun j hj => ?_, fun line hline => ?_,
    ⟨m.window offset.toNat length, ?_, m.map_ok_window_eq _ _⟩, m.checkedDump_eq offset,
    fun a b ha hoffset => m.dump_add offset b ha (Nat.lt_succ_of_le hoffset)⟩
  · rw [List.length_map, dumpRows, List.length_mapIdx, length_chunks (by decide), hlength]
    rfl
  · simp only [List.getElem_map, dumpRows, List.getElem_mapIdx]
    exact prefix_dumpRow _ _
  · obtain ⟨row, hrow, rfl⟩ := List.mem_map.1 hline
    obtain ⟨j, hj, rfl⟩ := List.mem_mapIdx.1 hrow
    exact endsIn_dumpRow (by decide) (ne_nil_of_mem_chunks (List.getElem_mem hj)) _
  · rw [flatMap_cellsOf_dumpRows, flatten_chunks]
    exact mapM_map_of_reads fun byte _ => readByte_byteCell byte

theorem dump_exact_ends :
    let offset : UInt16 := 0xFE8
    (16 ∣ 16 ∧ offset.toNat + 16 ≤ 65535) ∧
      initial.dump 0xFE8 40 = initial.dump 0xFE8 16 ++ initial.dump 0xFF8 24 ∧
      ∃ lines : List Line, linesOf (initial.dump 0xFE8 40) = lines ++ [[]] ∧
        lines.length = 2 ∧ ∀ h : 1 < lines.length, "0xff8\t".toList <+: lines[1] := by
  intro offset
  have hfits : offset.toNat + 16 ≤ 65535 := by decide
  have hsecond : ("0x" ++ lowerHex 3 (offset.toNat + 16 * 1) ++ "\t").toList =
      "0xff8\t".toList := by
    decide +kernel
  obtain ⟨lines, hlines, hcount, hstart, _, _, _, hadd⟩ := dump_exact initial offset 40
  refine ⟨⟨⟨1, rfl⟩, hfits⟩, hadd 16 24 ⟨1, rfl⟩ hfits, lines, hlines,
    hcount.trans (by decide), fun h => ?_⟩
  rw [← hsecond]
  exact hstart 1 h

end Memory

end ChipEight
