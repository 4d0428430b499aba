import ChipEight.Proofs.Listing.Dump
import Mathlib.Data.List.DropRight

namespace ChipEight

def trimEnd (text : Line) : Line :=
  text.rdropWhile Char.isWhitespace

theorem trimEnd_blank {text : Line} (h : EndsIn (fun c => c.isWhitespace = false) text) :
    trimEnd (text ++ [' ']) = text := by
  obtain ⟨c, hlast, hc⟩ := h
  rw [trimEnd, List.rdropWhile_concat_pos _ _ _ rfl, List.rdropWhile_eq_self_iff]
  intro hne
  rw [List.getLast?_eq_some_getLast hne] at hlast
  rw [Option.some.inj hlast, hc]
  exact Bool.false_ne_true

namespace Memory

variable {column : Nat} {bytes group : List UInt8}

def gap (column : Nat) : Line :=
  if 0 < column ∧ column % 4 = 0 then [' '] else []

def writeCells (text : Line) (column : Nat) : List UInt8 → Line
  | [] => text
  | byte :: rest => writeCells (text ++ gap column ++ byteCell byte ++ [' ']) (column + 1) rest

def writeLines (text : Line) (address : Nat) : List (List UInt8) → Line
  | [] => text
  | bytes :: rest =>
    let line := writeCells (text ++ addressColumn address ++ ['\t']) 0 bytes
    writeLines (trimEnd line ++ ['\n']) (address + dumpWidth) rest

theorem writeCells_append (text : Line) (h : ∀ i < group.length, (column + i) % 4 ≠ 0)
    (rest : List UInt8) :
    writeCells text column (group ++ rest) =
      writeCells (text ++ group.flatMap (byteCell · ++ [' '])) (column + group.length) rest := by
  induction group generalizing text column with
  | nil => simp
  | cons byte group ih =>
    have hgap : gap column = [] := if_neg fun hc => h 0 (Nat.succ_pos _) hc.2
    have hothers (i : Nat) (hi : i < group.length) : (column + 1 + i) % 4 ≠ 0 := by
      rw [Nat.add_assoc, Nat.add_comm 1]
      exact h (i + 1) (Nat.succ_lt_succ hi)
    rw [List.cons_append, writeCells, hgap, ih _ hothers, List.flatMap_cons, List.length_cons,
      Nat.add_assoc, Nat.add_comm 1]
    simp only [List.append_assoc, List.append_nil]

theorem writeCells_group (text : Line) (hcolumn : column % 4 = 0) (hne : group ≠ [])
    (hle : group.length ≤ 4) (rest : List UInt8) :
    writeCells text column (group ++ rest) =
      writeCells (text ++ gap column ++ ([' '].intercalate (group.map byteCell) ++ [' ']))
        (column + group.length) rest := by
  rw [intercalate_append_separator (mt List.map_eq_nil_iff.1 hne), List.flatMap_map]
  cases group with
  | nil => exact absurd rfl hne
  | cons byte group =>
    have hothers (i : Nat) (hi : i < group.length) : (column + 1 + i) % 4 ≠ 0 := by
      rw [List.length_cons] at hle
      omega
    rw [List.cons_append, writeCells, writeCells_append _ hothers, List.flatMap_cons,
      List.length_cons, Nat.add_assoc, Nat.add_comm 1]
    simp only [List.append_assoc]

theorem writeCells_eq (text : Line) (hcolumn : column % 4 = 0) (hne : bytes ≠ []) :
    writeCells text column bytes = text ++ gap column ++ (dumpCells bytes).toList ++ [' '] := by
  rw [toList_dumpCells]
  induction bytes using chunks.induct 4 generalizing text column with
  | case1 => exact absurd rfl hne
  | case2 byte rest ih =>
    have hle : (byte :: rest.take 3).length ≤ 4 := by
      rw [List.length_cons, List.length_take]
      omega
    have hcells : writeCells text column (byte :: rest) =
        writeCells (text ++ gap column ++
            ([' '].intercalate ((byte :: rest.take 3).map byteCell) ++ [' ']))
          (column + (byte :: rest.take 3).length) (rest.drop 3) := by
      rw [← writeCells_group text hcolumn (List.cons_ne_nil _ _) hle, List.cons_append,
        List.take_append_drop]
    rw [chunks, List.map_cons, hcells]
    rcases Nat.lt_or_ge 3 rest.length with hmore | hlast
    · have hcount : (byte :: rest.take 3).length = 4 := by
        rw [List.length_cons, List.length_take]
        omega
      have hrest : rest.drop 3 ≠ [] := mt List.drop_eq_nil_iff.1 (Nat.not_le.2 hmore)
      have hgap : gap (column + 4) = [' '] := if_pos ⟨Nat.succ_pos _, by omega⟩
      obtain ⟨piece, pieces, hpieces⟩ := List.exists_cons_of_ne_nil
        (mt List.map_eq_nil_iff.1 (chunks_ne_nil (by decide : 0 < 4) hrest))
      rw [hcount, ih _ (by omega) hrest, hgap, hpieces, List.intercalate_cons_cons]
      simp only [List.append_assoc, List.cons_append, List.nil_append]
    · rw [List.drop_eq_nil_of_le hlast, writeCells, chunks, List.map_nil,
        List.intercalate_singleton, List.append_assoc _ _ [' ']]

theorem writeLines_eq (text : Line) (address : Nat) {pieces : List (List UInt8)}
    (h : ∀ piece ∈ pieces, piece ≠ []) :
    writeLines text address pieces = text ++ (String.join (dumpLines address pieces)).toList := by
  induction pieces generalizing text address with
  | nil => simp [writeLines, dumpLines]
  | cons bytes rest ih =>
    obtain ⟨hbytes, hrest⟩ := List.forall_mem_cons.1 h
    have hcells : EndsIn (fun c => c.isWhitespace = false) (dumpCells bytes).toList :=
      endsIn_dumpCells (by decide) hbytes
    have hgap : gap 0 = [] := rfl
    have hline : (dumpLine address bytes).toList =
        addressColumn address ++ '\t' :: ((dumpCells bytes).toList ++ ['\n']) := by
      simp [dumpLine, addressColumn]
    rw [writeLines, writeCells_eq _ rfl hbytes, hgap, List.append_nil,
      trimEnd_blank (hcells.append _), ih _ _ hrest, dumpLines, String.join_cons,
      String.toList_append, hline]
    simp only [List.append_assoc, List.cons_append, List.nil_append]

theorem toList_dump_eq_writeLines (m : Memory) (offset : UInt16) (length : Nat) :
    (m.dump offset length).toList =
      writeLines [] offset.toNat (chunks dumpWidth (m.window offset.toNat length)) := by
  rw [writeLines_eq [] offset.toNat fun piece => ne_nil_of_mem_chunks]
  rfl

end Memory

end ChipEight
