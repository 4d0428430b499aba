import ChipEight.Board.Basic
import ChipEight.Text.Chunk

namespace ChipEight

namespace Overview

def valuesPerRow : Nat := 8

def rangeLabel (first last : Nat) : String :=
  paddedWord first ++ " - " ++ paddedWord last ++ " :"

def rangedRows {α : Type} (text : List α → String) : Nat → List (List α) → List String
  | _, [] => []
  | first, row :: rest =>
    (rangeLabel first (first + row.length - 1) ++ " " ++ text row)
      :: rangedRows text (first + row.length) rest

def valueRow (values : List Nat) : String :=
  " ".intercalate (values.map paddedWord)

def valueRows (values : List Nat) : List String :=
  rangedRows valueRow 0 (chunks valuesPerRow values)

def flagText (flag : Bool) : String :=
  if flag then "true" else "false"

def flagRow : List Bool → String
  | [] => ""
  | [flag] => flagText flag
  | flag :: rest => flagText flag ++ (if flag then "   " else "  ") ++ flagRow rest

def flagRows (flags : List Bool) : List String :=
  rangedRows flagRow 0 (chunks valuesPerRow flags)

def wordsOf : List UInt8 → List Word
  | [] => []
  | [high] => [.ofBytes high 0]
  | high :: low :: rest => .ofBytes high low :: wordsOf rest

inductive MemoryRow where
  | words (first last : Nat) (ws : List Word)
  | zeros (first last : Nat)
  deriving DecidableEq, Repr

def MemoryRow.text : MemoryRow → String
  | words first last ws =>
    rangeLabel first last ++ " " ++ valueRow (ws.map UInt16.toNat)
  | zeros first last =>
    rangeLabel first last ++ " " ++ paddedWord 0 ++ blanks 20 ++ "..." ++ blanks 20 ++ paddedWord 0

def consZeros (first last : Nat) : List MemoryRow → List MemoryRow
  | .zeros _ last' :: rest => .zeros first last' :: rest
  | rows => .zeros first last :: rows

def rowsOfChunks : Nat → List (List UInt8) → List MemoryRow
  | _, [] => []
  | first, chunk :: rest =>
    let last := first + chunk.length - 1
    let below := rowsOfChunks (first + chunk.length) rest
    if chunk.all (· == 0) then consZeros first last below
    else .words first last (wordsOf chunk) :: below

def memoryRows (bytes : List UInt8) : List MemoryRow :=
  rowsOfChunks 0 (chunks (2 * valuesPerRow) bytes)

def titled (title : String) (lines : List String) : String :=
  "\t" ++ title ++ " :\n" ++ String.join (lines.map fun line => "\t\t" ++ line ++ "\n")

end Overview

open Overview in
def Board.overview (b : Board) : String :=
  "Board \x7b\n"
    ++ titled "Break" [flagText b.broken]
    ++ titled "Program Counter" [paddedWord b.cpu.pc.toNat]
    ++ titled "Index Register" [paddedWord b.cpu.index.toNat]
    ++ titled "Stack Pointer" [paddedWord b.cpu.stack.depth]
    ++ titled "Delay Timer" [paddedWord b.cpu.delay.toNat]
    ++ titled "Sound Timer" [paddedWord b.cpu.sound.toNat]
    ++ titled "Memory" ((memoryRows b.memory.bytes.toList).map MemoryRow.text)
    ++ titled "Keypad" (flagRows b.keypad.keys.toList)
    ++ titled "Stack" (valueRows (b.cpu.stack.slots.map UInt16.toNat))
    ++ titled "Register" (valueRows (b.cpu.registers.toList.map UInt8.toNat))
    ++ "\x7d"

end ChipEight
