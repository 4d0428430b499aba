import ChipEight.Board.Overview
import ChipEight.Proofs.Instruction.Coding
import Mathlib.Data.List.Basic

namespace ChipEight

namespace Overview

theorem prefix_bytes_wordsOf (bytes : List UInt8) :
    bytes <+: (wordsOf bytes).flatMap Word.bytes := by
  induction bytes using wordsOf.induct with
  | case1 => exact List.nil_prefix
  | case2 high =>
    rw [wordsOf, List.flatMap_singleton, Word.bytes_ofBytes]
    exact List.prefix_append [high] [0]
  | case3 high low rest ih =>
    rw [wordsOf, List.flatMap_cons, Word.bytes_ofBytes]
    exact (List.prefix_append_right_inj [high, low]).2 ih

namespace MemoryRow

def first : MemoryRow → Nat
  | words first _ _ | zeros first _ => first

def last : MemoryRow → Nat
  | words _ last _ | zeros _ last => last

def bytes : MemoryRow → List UInt8
  | words first last ws => (ws.flatMap Word.bytes).take (last + 1 - first)
  | zeros first last => List.replicate (last + 1 - first) 0

end MemoryRow

inductive Tiles (stop : Nat) : Nat → List MemoryRow → Prop where
  | nil : Tiles stop stop []
  | cons {start : Nat} {row : MemoryRow} {rows : List MemoryRow} (hfirst : row.first = start)
      (hlast : start ≤ row.last) (hrest : Tiles stop (row.last + 1) rows) :
      Tiles stop start (row :: rows)

variable {start stop first last : Nat} {row : MemoryRow} {rows : List MemoryRow}

theorem Tiles.le (h : Tiles stop start rows) : start ≤ stop := by
  induction h with
  | nil => exact Nat.le_refl stop
  | cons _ hlast _ ih => omega

theorem Tiles.lt_of_mem (h : Tiles stop start rows) (hrow : row ∈ rows) :
    row.first < stop ∧ row.last < stop := by
  induction h with
  | nil => cases hrow
  | cons hfirst hlast hrest ih =>
    rcases List.mem_cons.1 hrow with rfl | hrow
    · have := hrest.le
      omega
    · exact ih hrow

theorem tiles_consZeros (hle : first ≤ last) (h : Tiles stop (last + 1) rows) :
    Tiles stop first (consZeros first last rows) := by
  cases h with
  | nil => exact .cons rfl hle .nil
  | @cons _ row rows hfirst hlast hrest =>
    cases row with
    | words _ _ ws => exact .cons rfl hle (.cons hfirst hlast hrest)
    | zeros _ last' => exact .cons rfl (Nat.le_trans (Nat.le_succ_of_le hle) hlast) hrest

theorem bytes_consZeros (hle : first ≤ last) (h : Tiles stop (last + 1) rows) :
    (consZeros first last rows).flatMap MemoryRow.bytes =
      List.replicate (last + 1 - first) 0 ++ rows.flatMap MemoryRow.bytes := by
  cases h with
  | nil => rfl
  | @cons _ row rows hfirst hlast hrest =>
    cases row with
    | words _ _ ws => rfl
    | zeros first' last' =>
      obtain rfl : first' = last + 1 := hfirst
      have hlast : last + 1 ≤ last' := hlast
      have hcount : last' + 1 - first = (last + 1 - first) + (last' + 1 - (last + 1)) := by omega
      rw [consZeros, List.flatMap_cons, List.flatMap_cons, ← List.append_assoc, MemoryRow.bytes,
        MemoryRow.bytes, List.replicate_append_replicate, ← hcount]

theorem rowsOfChunks_spec (pieces : List (List UInt8)) (hne : ∀ piece ∈ pieces, piece ≠ [])
    (first : Nat) :
    Tiles (first + pieces.flatten.length) first (rowsOfChunks first pieces) ∧
      (rowsOfChunks first pieces).flatMap MemoryRow.bytes = pieces.flatten := by
  induction pieces generalizing first with
  | nil => exact ⟨.nil, rfl⟩
  | cons piece rest ih =>
    obtain ⟨hpiece, hrest⟩ := List.forall_mem_cons.1 hne
    have hpos : 0 < piece.length := List.length_pos_iff.2 hpiece
    obtain ⟨last, hlast⟩ : ∃ last, first + piece.length = last + 1 :=
      ⟨first + piece.length - 1, by omega⟩
    have hle : first ≤ last := by omega
    have hcount : last + 1 - first = piece.length := by omega
    obtain ⟨htiles, hbytes⟩ := ih hrest (last + 1)
    rw [List.flatten_cons, List.length_append, ← Nat.add_assoc, rowsOfChunks, hlast,
      Nat.add_sub_cancel]
    split
    · next hzero =>
      have hreplicate : piece = List.replicate piece.length 0 := by
        refine List.eq_replicate_iff.2 ⟨rfl, fun byte hbyte => ?_⟩
        exact eq_of_beq (List.all_eq_true.1 hzero byte hbyte)
      refine ⟨tiles_consZeros hle htiles, ?_⟩
      rw [bytes_consZeros hle htiles, hbytes, hcount, ← hreplicate]
    · refine ⟨.cons rfl hle htiles, ?_⟩
      rw [List.flatMap_cons, hbytes, MemoryRow.bytes, hcount,
        ← List.prefix_iff_eq_take.1 (prefix_bytes_wordsOf piece)]

theorem tiles_memoryRows (bytes : List UInt8) : Tiles bytes.length 0 (memoryRows bytes) := by
  obtain ⟨htiles, _⟩ :=
    rowsOfChunks_spec (chunks (2 * valuesPerRow) bytes) (fun _ => ne_nil_of_mem_chunks) 0
  rwa [flatten_chunks, Nat.zero_add] at htiles

theorem bytes_memoryRows (bytes : List UInt8) :
    (memoryRows bytes).flatMap MemoryRow.bytes = bytes := by
  obtain ⟨_, hbytes⟩ :=
    rowsOfChunks_spec (chunks (2 * valuesPerRow) bytes) (fun _ => ne_nil_of_mem_chunks) 0
  rwa [flatten_chunks] at hbytes

end Overview

end ChipEight
