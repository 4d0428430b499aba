import ChipEight.Proofs.Overview.MemoryRows
import ChipEight.Proofs.Text.Columns
import ChipEight.Proofs.Text.Numerals

namespace ChipEight.Overview

theorem newline_not_mem_paddedWord (n : Nat) : '\n' ∉ (paddedWord n).toList :=
  not_mem_paddedWord (by decide) (by decide) n

theorem isToken_paddedWord (n : Nat) : IsToken (paddedWord n).toList where
  ne_nil := by simp [toList_paddedWord]
  not_blank := not_mem_paddedWord (by decide) (by decide) n

theorem isToken_flagText (flag : Bool) : IsToken (flagText flag).toList := by
  cases flag <;> constructor <;> decide

def labelLength : Nat := 4

theorem tokens_labelled (first last : Nat) (text : String) :
    tokens (rangeLabel first last ++ " " ++ text).toList =
      (paddedWord first).toList :: ['-'] :: (paddedWord last).toList :: [':']
        :: tokens text.toList := by
  have hcut : (rangeLabel first last ++ " " ++ text).toList =
      (paddedWord first).toList ++ ' ' :: (['-'] ++ ' ' :: ((paddedWord last).toList
        ++ ' ' :: ([':'] ++ ' ' :: text.toList))) := by
    simp [rangeLabel]
  have hdash : IsToken ['-'] := by constructor <;> decide
  have hcolon : IsToken [':'] := by constructor <;> decide
  rw [hcut, (isToken_paddedWord first).tokens_append, hdash.tokens_append,
    (isToken_paddedWord last).tokens_append, hcolon.tokens_append]

theorem newline_not_mem_labelled {text : String} (h : '\n' ∉ text.toList) (first last : Nat) :
    '\n' ∉ (rangeLabel first last ++ " " ++ text).toList := by
  simp [rangeLabel, newline_not_mem_paddedWord, h]

structure Writes {α : Type} (text : List α → String) (cell : α → Line) : Prop where
  tokens_eq : ∀ xs, tokens (text xs).toList = xs.map cell
  one_line : ∀ xs, '\n' ∉ (text xs).toList

theorem newline_not_mem_valueRow (values : List Nat) : '\n' ∉ (valueRow values).toList := by
  rw [valueRow, String.toList_intercalate, List.map_map]
  have hcells : ∀ cell ∈ values.map (String.toList ∘ paddedWord), ∀ c ∈ cell, c ≠ '\n' :=
    List.forall_mem_map.2 fun v _ c hc h => newline_not_mem_paddedWord v (h ▸ hc)
  have hblank : ∀ c ∈ " ".toList, c ≠ '\n' := List.forall_mem_singleton.2 (by decide)
  exact fun h => forall_mem_intercalate hblank hcells _ h rfl

theorem writes_valueRow : Writes valueRow fun v => (paddedWord v).toList where
  tokens_eq values := by
    rw [valueRow, String.toList_intercalate, List.map_map]
    exact tokens_intercalate (List.forall_mem_map.2 fun v _ => isToken_paddedWord v)
  one_line := newline_not_mem_valueRow

theorem toList_flagRow_cons (flag : Bool) {rest : List Bool} (h : rest ≠ []) :
    (flagRow (flag :: rest)).toList =
      (flagText flag).toList ++ ' ' :: (List.replicate (if flag then 2 else 1) ' '
        ++ (flagRow rest).toList) := by
  rw [flagRow]
  · cases flag <;> simp
  · exact h

theorem writes_flagRow : Writes flagRow fun flag => (flagText flag).toList where
  tokens_eq flags := by
    induction flags using flagRow.induct with
    | case1 => rfl
    | case2 flag => exact (isToken_flagText flag).tokens_eq
    | case3 flag rest hrest ih =>
      rw [toList_flagRow_cons flag hrest, (isToken_flagText flag).tokens_append, tokens_blanks, ih,
        List.map_cons]
  one_line flags := by
    induction flags using flagRow.induct with
    | case1 => decide
    | case2 flag => cases flag <;> decide
    | case3 flag rest hrest ih =>
      rw [toList_flagRow_cons flag hrest]
      cases flag <;> simp [flagText, ih]

def readCells {α : Type} (read : Line → Option α) (row : Line) : Option (List α) :=
  ((tokens row).drop labelLength).mapM read

def readTable {α : Type} (read : Line → Option α) (rows : List Line) : Option (List α) :=
  (rows.mapM (readCells read)).map List.flatten

section Table

variable {α : Type} {text : List α → String} {cell : α → Line} {read : Line → Option α}

theorem Writes.newline_not_mem (hw : Writes text cell) (first : Nat) (pieces : List (List α)) :
    ∀ row ∈ rangedRows text first pieces, '\n' ∉ row.toList := by
  induction pieces generalizing first with
  | nil => exact nofun
  | cons piece pieces ih =>
    refine List.forall_mem_cons.2 ⟨?_, ih _⟩
    exact newline_not_mem_labelled (hw.one_line piece) _ _

theorem Writes.readCells_labelled (hw : Writes text cell) {xs : List α}
    (hread : ∀ a ∈ xs, read (cell a) = some a) (first last : Nat) :
    readCells read (rangeLabel first last ++ " " ++ text xs).toList = some xs := by
  rw [readCells, tokens_labelled, hw.tokens_eq]
  exact mapM_map_of_reads hread

theorem Writes.mapM_rangedRows (hw : Writes text cell) {pieces : List (List α)}
    (hread : ∀ piece ∈ pieces, ∀ a ∈ piece, read (cell a) = some a) (first : Nat) :
    ((rangedRows text first pieces).map String.toList).mapM (readCells read) = some pieces := by
  induction pieces generalizing first with
  | nil => rfl
  | cons piece pieces ih =>
    obtain ⟨hpiece, hpieces⟩ := List.forall_mem_cons.1 hread
    rw [rangedRows, List.map_cons, List.mapM_cons, hw.readCells_labelled hpiece, ih hpieces]
    rfl

theorem Writes.readTable_rangedRows (hw : Writes text cell) {xs : List α}
    (hread : ∀ a ∈ xs, read (cell a) = some a) (size : Nat) :
    readTable read ((rangedRows text 0 (chunks size xs)).map String.toList) = some xs := by
  have hpieces : ∀ piece ∈ chunks size xs, ∀ a ∈ piece, read (cell a) = some a := by
    intro piece hpiece a ha
    have hmem := List.mem_flatten_of_mem hpiece ha
    rw [flatten_chunks] at hmem
    exact hread a hmem
  rw [readTable, hw.mapM_rangedRows hpieces, Option.map_some, flatten_chunks]

end Table

def readFlag (token : Line) : Option Bool :=
  if token = "true".toList then some true
  else if token = "false".toList then some false
  else none

theorem readFlag_flagText (flag : Bool) : readFlag (flagText flag).toList = some flag := by
  cases flag <;> decide

def ellipsis : Line :=
  ['.', '.', '.']

def readMemoryRow (row : Line) : Option MemoryRow :=
  match tokens row with
  | first :: _ :: last :: _ :: cells => do
    let first ← readWord first
    let last ← readWord last
    if ellipsis ∈ cells then
      return .zeros first last
    else
      let ws ← cells.mapM readWord
      return .words first last (ws.map UInt16.ofNat)
  | _ => none

theorem tokens_zeros (first last : Nat) :
    tokens (MemoryRow.zeros first last).text.toList =
      (paddedWord first).toList :: ['-'] :: (paddedWord last).toList :: [':']
        :: [(paddedWord 0).toList, ellipsis, (paddedWord 0).toList] := by
  have hzero := isToken_paddedWord 0
  have hdots : IsToken ellipsis := by constructor <;> decide
  have hcut : (paddedWord 0 ++ blanks 20 ++ "..." ++ blanks 20 ++ paddedWord 0).toList =
      (paddedWord 0).toList ++ ' ' :: (List.replicate 19 ' ' ++ (ellipsis
        ++ ' ' :: (List.replicate 19 ' ' ++ (paddedWord 0).toList))) := by
    simp [blanks, ellipsis, List.replicate_succ]
  have htokens : tokens (paddedWord 0 ++ blanks 20 ++ "..." ++ blanks 20 ++ paddedWord 0).toList =
      [(paddedWord 0).toList, ellipsis, (paddedWord 0).toList] := by
    rw [hcut, hzero.tokens_append, tokens_blanks, hdots.tokens_append, tokens_blanks,
      hzero.tokens_eq]
  rw [← htokens, ← tokens_labelled, MemoryRow.text]
  simp [String.append_assoc]

theorem readMemoryRow_text {row : MemoryRow} (hfirst : row.first < UInt16.size)
    (hlast : row.last < UInt16.size) : readMemoryRow row.text.toList = some row := by
  cases row with
  | words first last ws =>
    have hfirst : readWord (paddedWord first).toList = some first := readWord_paddedWord hfirst
    have hlast : readWord (paddedWord last).toList = some last := readWord_paddedWord hlast
    have hcells : ellipsis ∉ (ws.map UInt16.toNat).map fun v => (paddedWord v).toList := by
      simp [ellipsis, toList_paddedWord]
    have hread : ∀ v ∈ ws.map UInt16.toNat, readWord (paddedWord v).toList = some v :=
      List.forall_mem_map.2 fun w _ => readWord_paddedWord w.toNat_lt
    have hwords := mapM_map_of_reads hread
    rw [readMemoryRow, MemoryRow.text, tokens_labelled, writes_valueRow.tokens_eq]
    generalize (ws.map UInt16.toNat).map (fun v => (paddedWord v).toList) = cells at hcells hwords ⊢
    simp [hfirst, hlast, hcells, hwords, Function.comp_def]
  | zeros first last =>
    have hfirst : readWord (paddedWord first).toList = some first := readWord_paddedWord hfirst
    have hlast : readWord (paddedWord last).toList = some last := readWord_paddedWord hlast
    rw [readMemoryRow, tokens_zeros]
    simp [hfirst, hlast]

example :
    readMemoryRow "0x0000 - 0x004F : 0x0000                    ...                    0x0000".toList =
      some (.zeros 0x00 0x4F) := by
  decide

theorem newline_not_mem_memoryRow (row : MemoryRow) : '\n' ∉ row.text.toList := by
  cases row with
  | words first last ws => exact newline_not_mem_labelled (newline_not_mem_valueRow _) first last
  | zeros first last =>
    simp [MemoryRow.text, rangeLabel, blanks, newline_not_mem_paddedWord]

def readMemory (rows : List Line) : Option (List UInt8) :=
  (rows.mapM readMemoryRow).map (List.flatMap MemoryRow.bytes)

theorem readMemory_memoryRows (bytes : List UInt8) (h : bytes.length ≤ UInt16.size) :
    readMemory (((memoryRows bytes).map MemoryRow.text).map String.toList) = some bytes := by
  have hread : ∀ row ∈ memoryRows bytes, readMemoryRow row.text.toList = some row := by
    intro row hrow
    obtain ⟨hfirst, hlast⟩ := (tiles_memoryRows bytes).lt_of_mem hrow
    exact readMemoryRow_text (Nat.lt_of_lt_of_le hfirst h) (Nat.lt_of_lt_of_le hlast h)
  have hrows := mapM_map_of_reads hread
  rw [readMemory, List.map_map, Function.comp_def, hrows, Option.map_some, bytes_memoryRows]

end ChipEight.Overview
