import ChipEight.Proofs.Overview.Rows
import Mathlib.Data.List.Chain
import Mathlib.Data.List.GetD

namespace ChipEight

namespace Overview

theorem wordsOf_spec (bytes : List UInt8) :
    (wordsOf bytes).length = (bytes.length + 1) / 2 ∧
      ∀ k (h : k < (wordsOf bytes).length),
        (wordsOf bytes)[k] = .ofBytes (bytes.getD (2 * k) 0) (bytes.getD (2 * k + 1) 0) := by
  induction bytes using wordsOf.induct with
  | case1 => exact ⟨rfl, fun k h => absurd h (Nat.not_lt_zero k)⟩
  | case2 high =>
    refine ⟨by simp [wordsOf], fun k h => ?_⟩
    obtain rfl : k = 0 := Nat.lt_one_iff.1 h
    rfl
  | case3 high low rest ih =>
    obtain ⟨hlength, hwords⟩ := ih
    refine ⟨?_, fun k h => ?_⟩
    · rw [wordsOf, List.length_cons, hlength]
      simp only [List.length_cons]
      omega
    · cases k with
      | zero => rfl
      | succ k =>
        simp only [wordsOf, List.getElem_cons_succ]
        exact hwords k _

variable {bytes : List UInt8} {row : MemoryRow} {rows : List MemoryRow} {first last : Nat}

def ZeroRange (bytes : List UInt8) (first last : Nat) : Prop :=
  ∀ i, first ≤ i → i ≤ last → bytes.getD i 0 = 0

namespace MemoryRow

def isZeros : MemoryRow → Bool
  | words .. => false
  | zeros .. => true

def ShowsWords (bytes : List UInt8) : MemoryRow → Prop
  | words first last ws =>
    16 ∣ first ∧ last + 1 = min (first + 16) bytes.length ∧ ws.length = (last - first) / 2 + 1 ∧
      ∀ k (h : k < ws.length),
        ws[k] = .ofBytes (bytes.getD (first + 2 * k) 0) (bytes.getD (first + 2 * k + 1) 0)
  | zeros .. => True

structure Fits (bytes : List UInt8) (row : MemoryRow) : Prop where
  zeros_iff : row.isZeros = true ↔ ZeroRange bytes row.first row.last
  words : row.ShowsWords bytes

end MemoryRow

theorem fits_consZeros {stop : Nat} (h : Tiles stop (last + 1) rows)
    (hzero : ZeroRange bytes first last) (hrows : ∀ row ∈ rows, row.Fits bytes) :
    ∀ row ∈ consZeros first last rows, row.Fits bytes := by
  have hhead : (MemoryRow.zeros first last).Fits bytes := ⟨⟨fun _ => hzero, fun _ => rfl⟩, trivial⟩
  cases h with
  | nil => exact List.forall_mem_singleton.2 hhead
  | @cons _ row rows hfirst hlast hrest =>
    cases row with
    | words _ _ ws => exact List.forall_mem_cons.2 ⟨hhead, hrows⟩
    | zeros first' last' =>
      obtain ⟨hbelow, hfurther⟩ := List.forall_mem_cons.1 hrows
      obtain rfl : first' = last + 1 := hfirst
      have hjoined : ZeroRange bytes first last' := by
        intro i hge hle
        rcases Nat.lt_or_ge last i with hi | hi
        · exact hbelow.zeros_iff.1 rfl i hi hle
        · exact hzero i hge hi
      exact List.forall_mem_cons.2 ⟨⟨⟨fun _ => hjoined, fun _ => rfl⟩, trivial⟩, hfurther⟩

theorem isChain_consZeros (h : rows.IsChain fun row next => ¬(row.isZeros ∧ next.isZeros)) :
    (consZeros first last rows).IsChain fun row next => ¬(row.isZeros ∧ next.isZeros) := by
  cases rows with
  | nil => exact .singleton _
  | cons row rows =>
    cases row with
    | words _ _ ws => exact .cons_cons (fun hzeros => nomatch hzeros.2) h
    | zeros first' last' =>
      cases rows with
      | nil => exact .singleton _
      | cons next rows =>
        obtain ⟨hnext, hrows⟩ := List.isChain_cons_cons.1 h
        exact .cons_cons hnext hrows

theorem isChain_rowsOfChunks (pieces : List (List UInt8)) (first : Nat) :
    (rowsOfChunks first pieces).IsChain fun row next => ¬(row.isZeros ∧ next.isZeros) := by
  induction pieces generalizing first with
  | nil => exact .nil
  | cons piece rest ih =>
    rw [rowsOfChunks]
    split
    · exact isChain_consZeros (ih _)
    · refine List.isChain_cons.2 ⟨?_, ih _⟩
      exact fun next _ hzeros => Bool.false_ne_true hzeros.1

theorem getD_append_take (before below : List UInt8) {j size : Nat} (hj : j < size) :
    (before ++ below).getD (before.length + j) 0 = (below.take size).getD j 0 := by
  rw [List.getD_eq_getElem?_getD, List.getD_eq_getElem?_getD, List.getElem?_take_of_lt hj,
    List.getElem?_append_right (Nat.le_add_right _ _), Nat.add_sub_cancel_left]

theorem zeroRange_iff_all {before below : List UInt8} (hne : below ≠ []) :
    ZeroRange (before ++ below) before.length (before.length + (below.take 16).length - 1) ↔
      (below.take 16).all (· == 0) = true := by
  have hlength : (below.take 16).length = min 16 below.length := List.length_take
  have hpos : 0 < below.length := List.length_pos_iff.2 hne
  have hget {j : Nat} (hj : j < (below.take 16).length) :
      (before ++ below).getD (before.length + j) 0 = (below.take 16)[j] := by
    rw [getD_append_take before below (show j < 16 by omega), List.getD_eq_getElem _ _ hj]
  rw [List.all_eq_true]
  constructor
  · intro hrange byte hbyte
    obtain ⟨j, hj, rfl⟩ := List.getElem_of_mem hbyte
    exact beq_iff_eq.2 ((hget hj).symm.trans (hrange _ (Nat.le_add_right _ _) (by omega)))
  · intro hall i hge hle
    obtain ⟨j, rfl⟩ := Nat.exists_eq_add_of_le hge
    have hj : j < (below.take 16).length := by omega
    exact (hget hj).trans (beq_iff_eq.1 (hall _ (List.getElem_mem hj)))

theorem fits_words {before below : List UInt8} (hbefore : 16 ∣ before.length) (hne : below ≠ [])
    (hzero : ¬(below.take 16).all (· == 0) = true) :
    (MemoryRow.words before.length (before.length + (below.take 16).length - 1)
      (wordsOf (below.take 16))).Fits (before ++ below) := by
  have hlength : (below.take 16).length = min 16 below.length := List.length_take
  have hpos : 0 < below.length := List.length_pos_iff.2 hne
  obtain ⟨hcount, hwords⟩ := wordsOf_spec (below.take 16)
  refine ⟨⟨nofun, fun hrange => absurd ((zeroRange_iff_all hne).1 hrange) hzero⟩, hbefore, ?_, ?_,
    fun k hk => ?_⟩
  · rw [List.length_append]
    omega
  · omega
  · rw [hwords, Nat.add_assoc, getD_append_take before below (show 2 * k < 16 by omega),
      getD_append_take before below (show 2 * k + 1 < 16 by omega)]

theorem fits_rowsOfChunks (before bytes : List UInt8) (hbefore : 16 ∣ before.length) :
    ∀ row ∈ rowsOfChunks before.length (chunks 16 bytes), row.Fits (before ++ bytes) := by
  induction bytes using chunks.induct 16 generalizing before with
  | case1 =>
    rw [chunks]
    exact List.forall_mem_nil _
  | case2 a rest ih =>
    let piece := (a :: rest).take 16
    let below := rest.drop (16 - 1)
    have hcut : chunks 16 (a :: rest) = piece :: chunks 16 below := by rw [chunks]; rfl
    have hlength : piece.length = min 16 (rest.length + 1) := List.length_take
    have hwhole : before ++ a :: rest = before ++ piece ++ below := by
      rw [List.append_assoc]
      exact congrArg (before ++ ·) (List.take_append_drop 16 (a :: rest)).symm
    have hbelow : ∀ row ∈ rowsOfChunks (before.length + piece.length) (chunks 16 below),
        row.Fits (before ++ a :: rest) := by
      rcases Nat.lt_or_ge 15 rest.length with hlong | hshort
      · rw [hwhole, ← List.length_append]
        refine ih _ ?_
        rw [List.length_append]
        omega
      · have hnil : below = [] := List.drop_eq_nil_of_le hshort
        rw [hnil, chunks]
        exact List.forall_mem_nil _
    rw [hcut, rowsOfChunks]
    split
    · next hzero =>
      have hlast : before.length + piece.length = before.length + piece.length - 1 + 1 := by omega
      obtain ⟨htiles, _⟩ := rowsOfChunks_spec (chunks 16 below) (fun _ => ne_nil_of_mem_chunks)
        (before.length + piece.length)
      rw [hlast] at htiles hbelow
      exact fits_consZeros htiles ((zeroRange_iff_all (List.cons_ne_nil a rest)).2 hzero) hbelow
    · next hzero =>
      exact List.forall_mem_cons.2 ⟨fits_words hbefore (List.cons_ne_nil a rest) hzero, hbelow⟩

theorem Tiles.ends {start stop : Nat} (h : Tiles stop start rows) (hlt : start < stop) :
    ∃ top bottom, rows.head? = some top ∧ rows.getLast? = some bottom ∧
      top.first = start ∧ bottom.last + 1 = stop := by
  induction h with
  | nil => exact absurd hlt (Nat.lt_irrefl _)
  | @cons start row rows hfirst hlast hrest ih =>
    rcases Nat.lt_or_ge (row.last + 1) stop with hmore | hend
    · obtain ⟨top, bottom, htop, hbottom, _, hstop⟩ := ih hmore
      refine ⟨row, bottom, rfl, ?_, hfirst, hstop⟩
      rw [List.getLast?_cons, hbottom]
      rfl
    · have hstop := Nat.le_antisymm hrest.le hend
      cases hrest with
      | nil => exact ⟨row, row, rfl, rfl, hfirst, hstop⟩
      | cons hnext hle hrest =>
        have := hrest.le
        omega

def MemoryRow.cells : MemoryRow → List Line
  | words _ _ ws => ws.map fun w => (paddedWord w.toNat).toList
  | zeros .. => [(paddedWord 0).toList, ellipsis, (paddedWord 0).toList]

theorem tokens_text (row : MemoryRow) :
    tokens row.text.toList =
      (paddedWord row.first).toList :: ['-'] :: (paddedWord row.last).toList :: [':']
        :: row.cells := by
  cases row with
  | words first last ws =>
    rw [MemoryRow.text, tokens_labelled, writes_valueRow.tokens_eq, List.map_map]
    rfl
  | zeros first last => exact tokens_zeros first last

theorem cells_words_inj {ws ws' : List Word}
    (h : (MemoryRow.words first last ws).cells = (MemoryRow.words first last ws').cells) :
    ws = ws' := by
  refine List.map_injective_iff.2 (fun w w' hw => ?_) h
  exact UInt16.toNat_inj.1 (paddedWord_inj hw)

theorem cells_words_ne_cells_zeros (ws : List Word) :
    (MemoryRow.words first last ws).cells ≠ (MemoryRow.zeros first last).cells := by
  intro h
  have hdots : ellipsis ∈ (MemoryRow.zeros first last).cells := by simp [MemoryRow.cells]
  rw [← h] at hdots
  simp [MemoryRow.cells, ellipsis, toList_paddedWord] at hdots

theorem text_injective : Function.Injective MemoryRow.text := by
  intro row row' h
  have htokens : tokens row.text.toList = tokens row'.text.toList := by rw [h]
  simp only [tokens_text, List.cons.injEq] at htokens
  obtain ⟨hfirst, _, hlast, _, hcells⟩ := htokens
  have hfirst := paddedWord_inj hfirst
  have hlast := paddedWord_inj hlast
  cases row with
  | words first last ws =>
    cases row' with
    | words first' last' ws' =>
      obtain rfl : first = first' := hfirst
      obtain rfl : last = last' := hlast
      rw [cells_words_inj hcells]
    | zeros first' last' => exact absurd hcells (cells_words_ne_cells_zeros ws)
  | zeros first last =>
    cases row' with
    | words first' last' ws' => exact absurd hcells.symm (cells_words_ne_cells_zeros ws')
    | zeros first' last' =>
      obtain rfl : first = first' := hfirst
      obtain rfl : last = last' := hlast
      rfl

theorem rows_tile_and_collapse (bytes : List UInt8) :
    let rows := memoryRows bytes
    Tiles bytes.length 0 rows ∧
      (bytes ≠ [] → ∃ top bottom, rows.head? = some top ∧ rows.getLast? = some bottom ∧
        top.first = 0 ∧ bottom.last = bytes.length - 1) ∧
      (∀ row ∈ rows, row.Fits bytes ∧ tokens row.text.toList =
        (paddedWord row.first).toList :: ['-'] :: (paddedWord row.last).toList :: [':']
          :: row.cells) ∧
      rows.IsChain (fun row next => ¬(row.isZeros ∧ next.isZeros)) ∧
      rows.flatMap MemoryRow.bytes = bytes ∧
      ∀ bytes', (memoryRows bytes').map MemoryRow.text = rows.map MemoryRow.text ↔
        bytes' = bytes := by
  intro rows
  have htiles := tiles_memoryRows bytes
  have hfits : ∀ row ∈ rows, row.Fits bytes := fits_rowsOfChunks [] bytes ⟨0, rfl⟩
  refine ⟨htiles, fun hne => ?_, fun row hrow => ⟨hfits row hrow, tokens_text row⟩,
    isChain_rowsOfChunks _ 0, bytes_memoryRows bytes,
    fun bytes' => ⟨fun h => ?_, fun h => by rw [h]⟩⟩
  · obtain ⟨top, bottom, htop, hbottom, hfirst, hlast⟩ := htiles.ends (List.length_pos_iff.2 hne)
    exact ⟨top, bottom, htop, hbottom, hfirst, Nat.eq_sub_of_add_eq hlast⟩
  · have hrows := List.map_injective_iff.2 text_injective h
    rw [← bytes_memoryRows bytes', hrows, bytes_memoryRows]

theorem rows_tile_and_collapse_odd :
    let bytes : List UInt8 := List.replicate 32 0 ++ [1, 2, 3]
    let row := MemoryRow.words 32 34 [0x0102, 0x0300]
    (bytes ≠ [] ∧ row ∈ memoryRows bytes) ∧
      row.Fits bytes ∧ row.cells = ["0x0102".toList, "0x0300".toList] ∧
      tokens row.text.toList = "0x0020".toList :: ['-'] :: "0x0022".toList :: [':'] :: row.cells ∧
      (memoryRows bytes).flatMap MemoryRow.bytes = bytes ∧
      ∃ top, (memoryRows bytes).head? = some top ∧ top.first = 0 := by
  intro bytes row
  have hne : bytes ≠ [] := by decide
  have hrow : row ∈ memoryRows bytes := by decide +kernel
  obtain ⟨_, hends, hfits, _, hbytes, _⟩ := rows_tile_and_collapse bytes
  obtain ⟨top, _, htop, _, hfirst, _⟩ := hends hne
  obtain ⟨hshown, htokens⟩ := hfits row hrow
  have hlabel : paddedWord row.first = "0x0020" ∧ paddedWord row.last = "0x0022" := by
    decide +kernel
  rw [hlabel.1, hlabel.2] at htokens
  exact ⟨⟨hne, hrow⟩, hshown, by decide +kernel, htokens, hbytes, top, htop, hfirst⟩

end Overview

end ChipEight
