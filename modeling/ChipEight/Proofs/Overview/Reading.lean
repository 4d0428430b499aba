import ChipEight.Proofs.Board.Calls
import ChipEight.Proofs.Overview.Rows

namespace ChipEight

namespace Overview

structure Section where
  title : String
  rows : List String

namespace Section

def lines (s : Section) : List String :=
  ("\t" ++ s.title ++ " :") :: s.rows.map fun row => "\t\t" ++ row

structure Legible (s : Section) : Prop where
  title_plain : '\t' ∉ s.title.toList ∧ '\n' ∉ s.title.toList
  one_line : ∀ row ∈ s.rows, '\n' ∉ row.toList

theorem legible_mk {title : String} {rows : List String}
    (htitle : '\t' ∉ title.toList ∧ '\n' ∉ title.toList)
    (hrows : ∀ row ∈ rows, '\n' ∉ row.toList) : Legible ⟨title, rows⟩ :=
  ⟨htitle, hrows⟩

end Section

def isRow (line : Line) : Bool :=
  ['\t', '\t'].isPrefixOf line

def readSections (text : String) : List (List Line) :=
  ((linesOf text).tail.dropLast.splitOnP fun line => !isRow line).tail.map
    fun rows => rows.map (·.drop 2)

def printed (sections : List Section) : String :=
  "Board \x7b\n" ++ String.join (sections.map fun s => titled s.title s.rows) ++ "\x7d"

variable {s : Section} {sections : List Section}

theorem joinLines_lines (s : Section) : joinLines s.lines = titled s.title s.rows := by
  simp [joinLines, Section.lines, titled, Function.comp_def, String.append_assoc]

theorem printed_eq (sections : List Section) :
    printed sections = joinLines ("Board \x7b" :: sections.flatMap Section.lines) ++ "\x7d" := by
  have hlines : joinLines (sections.flatMap Section.lines) =
      String.join (sections.map fun s => titled s.title s.rows) := by
    induction sections with
    | nil => rfl
    | cons s sections ih =>
      rw [List.flatMap_cons, joinLines_append, joinLines_lines, ih, List.map_cons, String.join_cons]
  rw [printed, ← hlines, joinLines, joinLines, List.map_cons, String.join_cons]
  rfl

theorem Section.Legible.newline_not_mem (h : s.Legible) : ∀ line ∈ s.lines, '\n' ∉ line.toList := by
  refine List.forall_mem_cons.2 ⟨?_, List.forall_mem_map.2 fun row hrow => ?_⟩
  · simp [h.title_plain.2]
  · simp [h.one_line row hrow]

theorem isRow_row (row : String) : isRow ("\t\t" ++ row).toList = true := by
  simp [isRow]

theorem Section.Legible.isRow_title (h : s.Legible) :
    isRow ("\t" ++ s.title ++ " :").toList = false := by
  have hline : ("\t" ++ s.title ++ " :").toList = '\t' :: (s.title.toList ++ [' ', ':']) := by simp
  have hplain := h.title_plain.1
  rw [hline]
  cases htitle : s.title.toList with
  | nil => decide
  | cons c rest =>
    rw [htitle, List.mem_cons, not_or] at hplain
    simp [isRow, List.isPrefixOf_cons_cons, hplain.1]

theorem splitOnP_lines (h : ∀ s ∈ sections, s.Legible) (rows : List Line)
    (hrows : ∀ row ∈ rows, isRow row = true) :
    (rows ++ (sections.flatMap Section.lines).map String.toList).splitOnP
        (fun line => !isRow line) =
      rows :: sections.map fun s => s.rows.map fun row => ("\t\t" ++ row).toList := by
  induction sections generalizing rows with
  | nil =>
    rw [List.flatMap_nil, List.map_nil, List.append_nil]
    exact List.splitOnP_eq_singleton fun row hrow => by simp [hrows row hrow]
  | cons s sections ih =>
    obtain ⟨hs, hsections⟩ := List.forall_mem_cons.1 h
    have hbelow := ih hsections (s.rows.map fun row => ("\t\t" ++ row).toList)
      (List.forall_mem_map.2 fun row _ => isRow_row row)
    rw [List.flatMap_cons, Section.lines, List.cons_append, List.map_cons, List.map_append,
      List.map_map, List.splitOnP_append_cons_of_forall_mem (by simpa using hrows) _
        (by rw [hs.isRow_title, Bool.not_false])]
    exact congrArg (rows :: ·) hbelow

theorem readSections_printed (h : ∀ s ∈ sections, s.Legible) :
    readSections (printed sections) = sections.map fun s => s.rows.map String.toList := by
  have hlines : ∀ line ∈ "Board \x7b" :: sections.flatMap Section.lines, '\n' ∉ line.toList := by
    refine List.forall_mem_cons.2 ⟨by decide, fun line hline => ?_⟩
    obtain ⟨s, hs, hline⟩ := List.mem_flatMap.1 hline
    exact (h s hs).newline_not_mem line hline
  have hcut := splitOnP_lines h [] nofun
  rw [List.nil_append] at hcut
  rw [readSections, printed_eq, linesOf_joinLines hlines (by decide), List.map_cons, List.cons_append,
    List.tail_cons, List.dropLast_concat, hcut, List.tail_cons, List.map_map]
  refine List.map_congr_left fun s _ => ?_
  simp [Function.comp_def]

end Overview

open Overview

def Board.sections (b : Board) : List Section :=
  [⟨"Break", [flagText b.broken]⟩,
    ⟨"Program Counter", [paddedWord b.cpu.pc.toNat]⟩,
    ⟨"Index Register", [paddedWord b.cpu.index.toNat]⟩,
    ⟨"Stack Pointer", [paddedWord b.cpu.stack.depth]⟩,
    ⟨"Delay Timer", [paddedWord b.cpu.delay.toNat]⟩,
    ⟨"Sound Timer", [paddedWord b.cpu.sound.toNat]⟩,
    ⟨"Memory", (memoryRows b.memory.bytes.toList).map MemoryRow.text⟩,
    ⟨"Keypad", flagRows b.keypad.keys.toList⟩,
    ⟨"Stack", valueRows (b.cpu.stack.slots.map UInt16.toNat)⟩,
    ⟨"Register", valueRows (b.cpu.registers.toList.map UInt8.toNat)⟩]

theorem Board.overview_eq (b : Board) : b.overview = printed b.sections := by
  unfold overview printed sections
  simp only [List.map_cons, List.map_nil, String.join_cons, String.join_nil, String.append_empty,
    String.append_assoc]

theorem Board.legible_sections (b : Board) : ∀ s ∈ b.sections, s.Legible := by
  have hword (n : Nat) : ∀ row ∈ [paddedWord n], '\n' ∉ row.toList :=
    List.forall_mem_singleton.2 (newline_not_mem_paddedWord n)
  have hflag : ∀ row ∈ [flagText b.broken], '\n' ∉ row.toList :=
    List.forall_mem_singleton.2 (by cases b.broken <;> decide)
  have hmemory : ∀ row ∈ (memoryRows b.memory.bytes.toList).map MemoryRow.text, '\n' ∉ row.toList :=
    List.forall_mem_map.2 fun row _ => newline_not_mem_memoryRow row
  simp only [sections, List.forall_mem_cons]
  exact ⟨Section.legible_mk (by decide) hflag, Section.legible_mk (by decide) (hword _),
    Section.legible_mk (by decide) (hword _), Section.legible_mk (by decide) (hword _),
    Section.legible_mk (by decide) (hword _), Section.legible_mk (by decide) (hword _),
    Section.legible_mk (by decide) hmemory,
    Section.legible_mk (by decide) (writes_flagRow.newline_not_mem _ _),
    Section.legible_mk (by decide) (writes_valueRow.newline_not_mem _ _),
    Section.legible_mk (by decide) (writes_valueRow.newline_not_mem _ _), nofun⟩

structure Shown where
  broken : Bool
  pc : UInt16
  index : UInt16
  stack : List UInt16
  delay : UInt8
  sound : UInt8
  memory : List UInt8
  keys : List Bool
  registers : List UInt8

def Board.shown (b : Board) : Shown where
  broken := b.broken
  pc := b.cpu.pc
  index := b.cpu.index
  stack := b.cpu.stack.addresses
  delay := b.cpu.delay
  sound := b.cpu.sound
  memory := b.memory.bytes.toList
  keys := b.keypad.keys.toList
  registers := b.cpu.registers.toList

namespace Overview

def readRow {α : Type} (read : Line → Option α) : List Line → Option α
  | [row] => read row
  | _ => none

def read (text : String) : Option Shown :=
  match readSections text with
  | [broken, pc, index, depth, delay, sound, memory, keys, stack, registers] => do
    let depth ← readRow readWord depth
    let slots ← readTable readWord stack
    return {
      broken := ← readRow readFlag broken
      pc := UInt16.ofNat (← readRow readWord pc)
      index := UInt16.ofNat (← readRow readWord index)
      stack := (slots.take depth).map UInt16.ofNat
      delay := UInt8.ofNat (← readRow readWord delay)
      sound := UInt8.ofNat (← readRow readWord sound)
      memory := ← readMemory memory
      keys := ← readTable readFlag keys
      registers := (← readTable readWord registers).map UInt8.ofNat }
  | _ => none

theorem readTable_valueRows (values : List Nat) (h : ∀ v ∈ values, v < UInt16.size) :
    readTable readWord ((valueRows values).map String.toList) = some values :=
  writes_valueRow.readTable_rangedRows (fun v hv => readWord_paddedWord (h v hv)) valuesPerRow

theorem readTable_flagRows (flags : List Bool) :
    readTable readFlag ((flagRows flags).map String.toList) = some flags :=
  writes_flagRow.readTable_rangedRows (fun flag _ => readFlag_flagText flag) valuesPerRow

end Overview

theorem Board.read_overview (b : Board) : Overview.read b.overview = some b.shown := by
  have hword (a : UInt16) : readWord (paddedWord a.toNat).toList = some a.toNat :=
    readWord_paddedWord a.toNat_lt
  have hlt (byte : UInt8) : byte.toNat < UInt16.size := Nat.lt_trans byte.toNat_lt (by decide)
  have hbyte (byte : UInt8) : readWord (paddedWord byte.toNat).toList = some byte.toNat :=
    readWord_paddedWord (hlt byte)
  have hdepth : readWord (paddedWord b.cpu.stack.depth).toList = some b.cpu.stack.depth :=
    readWord_paddedWord (Nat.lt_of_le_of_lt b.cpu.stack.depth_le (by decide))
  have hmemory := readMemory_memoryRows b.memory.bytes.toList
    (Vector.length_toList ▸ by decide)
  have hkeys := readTable_flagRows b.keypad.keys.toList
  have hslots := readTable_valueRows (b.cpu.stack.slots.map UInt16.toNat)
    (List.forall_mem_map.2 fun a _ => a.toNat_lt)
  have hregisters := readTable_valueRows (b.cpu.registers.toList.map UInt8.toNat)
    (List.forall_mem_map.2 fun value _ => hlt value)
  rw [Overview.read, overview_eq, readSections_printed b.legible_sections]
  simp only [sections, List.map_cons, List.map_nil, readRow, readFlag_flagText, hword, hbyte, hdepth,
    hmemory, hkeys, hslots, hregisters]
  simp [shown, ← List.map_take, CallStack.take_slots, Function.comp_def]

theorem Board.overview_lossless :
    (∀ b : Board, Overview.read b.overview = some b.shown) ∧
    ∀ b b' : Board, b.overview = b'.overview ↔
      b.broken = b'.broken ∧ b.cpu.pc = b'.cpu.pc ∧ b.cpu.index = b'.cpu.index ∧
        b.cpu.stack = b'.cpu.stack ∧ b.cpu.delay = b'.cpu.delay ∧ b.cpu.sound = b'.cpu.sound ∧
        b.memory = b'.memory ∧ b.keypad = b'.keypad ∧ b.cpu.registers = b'.cpu.registers := by
  refine ⟨read_overview, fun b b' => ⟨fun h => ?_, ?_⟩⟩
  · have hshown : b.shown = b'.shown := by
      apply Option.some.inj
      rw [← read_overview, ← read_overview, h]
    obtain ⟨hbroken, hpc, hindex, hstack, hdelay, hsound, hmemory, hkeys, hregisters⟩ :=
      Shown.mk.inj hshown
    have hstack : b.cpu.stack = b'.cpu.stack :=
      CallStack.eq_of_frames (List.reverse_injective hstack)
    have hmemory : b.memory = b'.memory := congrArg Memory.mk (Vector.toList_inj.1 hmemory)
    have hkeypad : b.keypad = b'.keypad := congrArg Keypad.mk (Vector.toList_inj.1 hkeys)
    have hregisters := Vector.toList_inj.1 hregisters
    exact ⟨hbroken, hpc, hindex, hstack, hdelay, hsound, hmemory, hkeypad, hregisters⟩
  · rintro ⟨hbroken, hpc, hindex, hstack, hdelay, hsound, hmemory, hkeypad, hregisters⟩
    unfold overview
    rw [hbroken, hpc, hindex, hstack, hdelay, hsound, hmemory, hkeypad, hregisters]

end ChipEight
