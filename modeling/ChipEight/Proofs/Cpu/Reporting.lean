import ChipEight.Cpu.Report
import ChipEight.Proofs.Board.Calls
import ChipEight.Proofs.Listing.Dump
import ChipEight.Proofs.Screen.Marks

namespace ChipEight

theorem isToken_decimal (n : Nat) : IsToken (Nat.toDigits 10 n) where
  ne_nil := Nat.toDigits_ne_nil
  not_blank := not_mem_toDigits (by decide) (by decide) n

theorem tokens_paddedDecimal (width n : Nat) :
    tokens (paddedDecimal width n).toList = [Nat.toDigits 10 n] := by
  rw [paddedDecimal, String.toList_ofList, List.leftpad, tokens_blanks,
    (isToken_decimal n).tokens_eq]

theorem newline_not_mem_paddedDecimal (width n : Nat) : '\n' ∉ (paddedDecimal width n).toList := by
  have hdigits : '\n' ∉ Nat.toDigits 10 n := not_mem_toDigits (by decide) (by decide) n
  simp [paddedDecimal, List.leftpad, hdigits]

theorem readCell_lowerHex {width n : Nat} (hwidth : 0 < width) (hn : n < 16 ^ width) :
    readCell width (lowerHex width n).toList = some n := by
  rw [toList_lowerHex, lowerDigits_eq, readCell_spelledDigits legible_lower hwidth hn]

def readAddress (cell : Line) : Option UInt16 :=
  (readCell 4 cell).map UInt16.ofNat

theorem readAddress_lowerHex (a : UInt16) : readAddress (lowerHex 4 a.toNat).toList = some a := by
  rw [readAddress, readCell_lowerHex (by decide) a.toNat_lt, Option.map_some, UInt16.ofNat_toNat]

def readTimer (cell : Line) : Option UInt8 :=
  (readCell 3 cell).map UInt8.ofNat

theorem readTimer_lowerHex (level : UInt8) :
    readTimer (lowerHex 3 level.toNat).toList = some level := by
  have hlevel : level.toNat < 16 ^ 3 := Nat.lt_trans level.toNat_lt (by decide)
  rw [readTimer, readCell_lowerHex (by decide) hlevel, Option.map_some, UInt8.ofNat_toNat]

namespace Cpu

variable {cells : List String}

theorem tokens_cellRow (cells : List String) :
    tokens (cellRow cells).toList = cells.flatMap fun cell => tokens cell.toList := by
  rw [cellRow, String.toList_intercalate]
  simp [tokens_intercalate_blanks, List.flatMap_map]

theorem newline_not_mem_cellRow (h : ∀ cell ∈ cells, '\n' ∉ cell.toList) :
    '\n' ∉ (cellRow cells).toList := by
  rw [cellRow, String.toList_intercalate]
  have hcells : ∀ cell ∈ cells.map String.toList, ∀ c ∈ cell, c ≠ '\n' :=
    List.forall_mem_map.2 fun cell hcell c hc hnewline => h cell hcell (hnewline ▸ hc)
  have hblanks : ∀ c ∈ "  ".toList, c ≠ '\n' := by simp
  exact fun hmem => forall_mem_intercalate hblanks hcells _ hmem rfl

theorem newline_not_mem_cellRows (h : ∀ cell ∈ cells, '\n' ∉ cell.toList) (size : Nat) :
    ∀ row ∈ chunks size cells, '\n' ∉ (cellRow row).toList := by
  intro row hrow
  refine newline_not_mem_cellRow fun cell hcell => h cell ?_
  rw [← flatten_chunks size cells]
  exact List.mem_flatten_of_mem hrow hcell

theorem flatMap_tokens_cellRows (size : Nat) (cells : List String) :
    ((chunks size cells).map cellRow).flatMap (fun row => tokens row.toList) =
      cells.flatMap fun cell => tokens cell.toList := by
  simp only [List.flatMap_map, tokens_cellRow]
  rw [← List.flatMap_assoc]
  simp [flatten_chunks]

def registerLabel (i : Nat) : Line :=
  (registerText i).toList ++ [':']

theorem isToken_registerLabel (i : Nat) : IsToken (registerLabel i) where
  ne_nil := by simp [registerLabel]
  not_blank := by
    have hdigits : ' ' ∉ upperDigits 1 i := not_mem_upperDigits (by decide) 1 i
    simp [registerLabel, registerText, hdigits]

def registerTokens (i : Nat) (value : UInt8) : List Line :=
  [registerLabel i, (lowerHex 2 value.toNat).toList, Nat.toDigits 10 value.toNat]

theorem tokens_registerCell (i : Nat) (value : UInt8) :
    tokens (registerCell i value).toList = registerTokens i value := by
  have hcut : (registerCell i value).toList = registerLabel i ++ ' ' ::
      ((lowerHex 2 value.toNat).toList ++ ' ' :: (paddedDecimal 3 value.toNat).toList) := by
    simp [registerCell, registerLabel]
  rw [hcut, (isToken_registerLabel i).tokens_append, (isToken_lowerHex 2 _).tokens_append,
    tokens_paddedDecimal, registerTokens]

def readRegisters : List Line → Option (List UInt8)
  | [] => some []
  | _ :: cell :: _ :: rest => do
    let value ← Memory.readByte cell
    let values ← readRegisters rest
    return value :: values
  | _ => none

theorem readRegisters_append (i : Nat) (value : UInt8) (rest : List Line) :
    readRegisters (registerTokens i value ++ rest) = (readRegisters rest).map (value :: ·) := by
  have hvalue : Memory.readByte (lowerHex 2 value.toNat).toList = some value :=
    Memory.readByte_byteCell value
  rw [registerTokens, List.cons_append, List.cons_append, List.cons_append, List.nil_append,
    readRegisters, hvalue]
  cases readRegisters rest <;> rfl

theorem readRegisters_registerCells (first : Nat) (values : List UInt8) :
    readRegisters ((values.mapIdx fun i value => registerCell (first + i) value).flatMap
      fun cell => tokens cell.toList) = some values := by
  induction values generalizing first with
  | nil => rfl
  | cons value values ih =>
    have hrest := ih (first + 1)
    simp only [Nat.add_assoc, Nat.add_comm 1] at hrest
    rw [List.mapIdx_cons, List.flatMap_cons, tokens_registerCell, readRegisters_append, hrest]
    rfl

theorem readRegisters_registerRows (c : Cpu) :
    readRegisters (c.registerRows.flatMap fun row => tokens row.toList) =
      some c.registers.toList := by
  have hread := readRegisters_registerCells 0 c.registers.toList
  simp only [Nat.zero_add] at hread
  rw [registerRows, flatMap_tokens_cellRows]
  exact hread

theorem mapM_readAddress_stackRows (c : Cpu) :
    (c.stackRows.flatMap fun row => tokens row.toList.tail).mapM readAddress =
      some c.stack.slots := by
  have hrow (cells : List String) :
      tokens ("\t" ++ cellRow cells).toList.tail = tokens (cellRow cells).toList := by
    simp
  have hcells := flatMap_tokens_cellRows cellsPerRow
    (c.stack.slots.map fun a => lowerHex 4 a.toNat)
  have htokens : (c.stackRows.flatMap fun row => tokens row.toList.tail) =
      c.stack.slots.map fun a => (lowerHex 4 a.toNat).toList := by
    rw [List.flatMap_map] at hcells
    rw [stackRows, List.flatMap_map]
    simp only [hrow, hcells, List.flatMap_map, (isToken_lowerHex 4 _).tokens_eq]
    exact List.map_eq_flatMap.symm
  rw [htokens]
  exact mapM_map_of_reads fun a _ => readAddress_lowerHex a

def readField {α : Type} (read : Line → Option α) (line : Line) : Option α :=
  match tokens line with
  | [_, cell] => read cell
  | _ => none

theorem readField_eq {α : Type} {read : Line → Option α} {title cell : String} {a : α}
    (label : Line) (htitle : title.toList = label ++ [' ']) (hlabel : IsToken label)
    (hcell : IsToken cell.toList) (h : read cell.toList = some a) :
    readField read (title ++ cell).toList = some a := by
  have hcut : (title ++ cell).toList = label ++ ' ' :: cell.toList := by
    simp [htitle]
  rw [readField, hcut, hlabel.tokens_append, hcell.tokens_eq]
  exact h

def readTimers (line : Line) : Option (UInt8 × UInt8) :=
  match tokens line with
  | [_, _, delay, _, _, sound, _] => do
    let delay ← readTimer delay
    let sound ← readTimer sound
    return (delay, sound)
  | _ => none

def timersLine (c : Cpu) : String :=
  "TIMERS: Dt: " ++ timerText c.delay ++ " St: " ++ timerText c.sound

theorem readTimers_timersLine (c : Cpu) :
    readTimers c.timersLine.toList = some (c.delay, c.sound) := by
  have hcut : c.timersLine.toList = "TIMERS:".toList ++ ' ' :: ("Dt:".toList ++ ' ' ::
      ((lowerHex 3 c.delay.toNat).toList ++ ' ' :: (Nat.toDigits 10 c.delay.toNat ++ ' ' ::
        ("St:".toList ++ ' ' :: ((lowerHex 3 c.sound.toNat).toList ++ ' ' ::
          Nat.toDigits 10 c.sound.toNat))))) := by
    simp [timersLine, timerText]
  have htitle : IsToken "TIMERS:".toList := by constructor <;> decide
  have hdelay : IsToken "Dt:".toList := by constructor <;> decide
  have hsound : IsToken "St:".toList := by constructor <;> decide
  rw [readTimers, hcut, htitle.tokens_append, hdelay.tokens_append,
    (isToken_lowerHex 3 _).tokens_append, (isToken_decimal _).tokens_append, hsound.tokens_append,
    (isToken_lowerHex 3 _).tokens_append, (isToken_decimal _).tokens_eq]
  simp only [readTimer_lowerHex]
  rfl

structure Reported where
  pc : UInt16
  index : UInt16
  stack : List UInt16
  registers : List UInt8
  delay : UInt8
  sound : UInt8

def reported (c : Cpu) : Reported where
  pc := c.pc
  index := c.index
  stack := c.stack.addresses
  registers := c.registers.toList
  delay := c.delay
  sound := c.sound

def registerRowCount : Nat := 4

def readReport (text : String) : Option Reported :=
  match linesOf text with
  | pc :: depth :: index :: rest =>
    match rest.drop registerRowCount with
    | timers :: _ :: stack => do
      let depth ← readField (readCell 4) depth
      let slots ← (stack.flatMap fun row => tokens row.tail).mapM readAddress
      let (delay, sound) ← readTimers timers
      return {
        pc := ← readField readAddress pc
        index := ← readField readAddress index
        stack := slots.take depth
        registers := ← readRegisters ((rest.take registerRowCount).flatMap tokens)
        delay
        sound }
    | _ => none
  | _ => none

theorem length_registerRows (c : Cpu) : c.registerRows.length = registerRowCount := by
  rw [registerRows, List.length_map, length_chunks (by decide)]
  simp
  rfl

theorem newline_not_mem_registerRows (c : Cpu) : ∀ row ∈ c.registerRows, '\n' ∉ row.toList := by
  have hcells : ∀ cell ∈ c.registers.toList.mapIdx registerCell, '\n' ∉ cell.toList := by
    intro cell hcell
    obtain ⟨i, _, rfl⟩ := List.mem_mapIdx.1 hcell
    have hname : '\n' ∉ upperDigits 1 i := not_mem_upperDigits (by decide) 1 i
    have hvalue (n : Nat) : '\n' ∉ lowerDigits 2 n := not_mem_lowerDigits (by decide) 2 n
    simp [registerCell, registerText, hname, hvalue, newline_not_mem_paddedDecimal]
  exact List.forall_mem_map.2 (newline_not_mem_cellRows hcells cellsPerRow)

theorem newline_not_mem_stackRows (c : Cpu) : ∀ row ∈ c.stackRows, '\n' ∉ row.toList := by
  have hcells : ∀ cell ∈ c.stack.slots.map (fun a => lowerHex 4 a.toNat), '\n' ∉ cell.toList := by
    refine List.forall_mem_map.2 fun a _ => ?_
    rw [toList_lowerHex]
    exact not_mem_lowerDigits (by decide) 4 _
  refine List.forall_mem_map.2 fun row hrow => ?_
  simp [newline_not_mem_cellRows hcells cellsPerRow row hrow]

theorem newline_not_mem_timersLine (c : Cpu) : '\n' ∉ c.timersLine.toList := by
  have hlevel (n : Nat) : '\n' ∉ lowerDigits 3 n := not_mem_lowerDigits (by decide) 3 n
  have hdecimal (n : Nat) : '\n' ∉ Nat.toDigits 10 n := not_mem_toDigits (by decide) (by decide) n
  simp [timersLine, timerText, hlevel, hdecimal]

theorem reportLines_eq (c : Cpu) :
    c.reportLines =
      ("PC: " ++ lowerHex 4 c.pc.toNat) :: ("SP: " ++ lowerHex 4 c.stack.depth) ::
        ("I: " ++ lowerHex 4 c.index.toNat) ::
          (c.registerRows ++ c.timersLine :: "Stack:" :: c.stackRows) := by
  simp [reportLines, timersLine]

theorem newline_not_mem_reportLines (c : Cpu) : ∀ line ∈ c.reportLines, '\n' ∉ line.toList := by
  have hword (n : Nat) : '\n' ∉ lowerDigits 4 n := not_mem_lowerDigits (by decide) 4 n
  rw [reportLines_eq]
  simp only [List.forall_mem_cons, List.forall_mem_append]
  refine ⟨by simp [hword], by simp [hword], by simp [hword], c.newline_not_mem_registerRows,
    c.newline_not_mem_timersLine, by decide, c.newline_not_mem_stackRows⟩

theorem linesOf_report (c : Cpu) : linesOf c.report = c.reportLines.map String.toList := by
  have hlines : ∀ line ∈ c.reportLines.map String.toList, '\n' ∉ line :=
    List.forall_mem_map.2 c.newline_not_mem_reportLines
  rw [linesOf, report, String.toList_intercalate]
  exact List.splitOn_intercalate '\n' hlines (by simp [reportLines])

theorem readReport_report (c : Cpu) : readReport c.report = some c.reported := by
  have hpc : readField readAddress ("PC: " ++ lowerHex 4 c.pc.toNat).toList = some c.pc :=
    readField_eq ['P', 'C', ':'] (by decide) (by constructor <;> decide)
      (isToken_lowerHex 4 _) (readAddress_lowerHex c.pc)
  have hindex : readField readAddress ("I: " ++ lowerHex 4 c.index.toNat).toList = some c.index :=
    readField_eq ['I', ':'] (by decide) (by constructor <;> decide)
      (isToken_lowerHex 4 _) (readAddress_lowerHex c.index)
  have hdepth : readField (readCell 4) ("SP: " ++ lowerHex 4 c.stack.depth).toList =
      some c.stack.depth :=
    readField_eq ['S', 'P', ':'] (by decide) (by constructor <;> decide)
      (isToken_lowerHex 4 _) (readCell_lowerHex (by decide)
        (Nat.lt_of_le_of_lt c.stack.depth_le (by decide)))
  have hstack := c.mapM_readAddress_stackRows
  have hregisters := c.readRegisters_registerRows
  rw [readReport, linesOf_report, reportLines_eq]
  simp only [List.map_cons, List.map_append]
  rw [List.drop_left' (by rw [List.length_map, length_registerRows]),
    List.take_left' (by rw [List.length_map, length_registerRows])]
  simp only [List.flatMap_map, hpc, hindex, hdepth, hstack, hregisters, readTimers_timersLine]
  simp [reported, CallStack.take_slots]

theorem eq_of_reported {c c' : Cpu} (h : c.reported = c'.reported) :
    c.pc = c'.pc ∧ c.index = c'.index ∧ c.stack = c'.stack ∧ c.registers = c'.registers ∧
      c.delay = c'.delay ∧ c.sound = c'.sound := by
  obtain ⟨hpc, hindex, hstack, hregisters, hdelay, hsound⟩ := Reported.mk.inj h
  exact ⟨hpc, hindex, CallStack.eq_of_frames (List.reverse_injective hstack),
    Vector.toList_inj.1 hregisters, hdelay, hsound⟩

theorem report_eq_iff {c c' : Cpu} :
    c.report = c'.report ↔
      c.pc = c'.pc ∧ c.index = c'.index ∧ c.stack = c'.stack ∧ c.registers = c'.registers ∧
        c.delay = c'.delay ∧ c.sound = c'.sound := by
  constructor
  · intro h
    apply eq_of_reported
    apply Option.some.inj
    rw [← readReport_report, ← readReport_report, h]
  · rintro ⟨hpc, hindex, hstack, hregisters, hdelay, hsound⟩
    rw [report, report, reportLines_eq, reportLines_eq, registerRows, registerRows, stackRows,
      stackRows, timersLine, timersLine, hpc, hindex, hstack, hregisters, hdelay, hsound]

theorem halt_report_lossless :
    (∀ c : Cpu, readReport c.report = some c.reported) ∧
    (∀ c c' : Cpu, c.report = c'.report ↔
      c.pc = c'.pc ∧ c.index = c'.index ∧ c.stack = c'.stack ∧ c.registers = c'.registers ∧
        c.delay = c'.delay ∧ c.sound = c'.sound) ∧
    (∀ s : Screen, ∃ lines : List Line,
      linesOf s.picture = lines ++ [[]] ∧ lines.length = 32 ∧
      ∀ y (hy : y < lines.length), lines[y].length = 64 ∧
        ∀ x (hx : x < lines[y].length), lines[y][x] = '*' ↔ s.pixel x y = true) ∧
    ∀ s s' : Screen, s.picture = s'.picture ↔ ∀ x y, s.pixel x y = s'.pixel x y := by
  refine ⟨readReport_report, fun c c' => report_eq_iff, fun s => ?_,
    fun s s' => Screen.picture_eq_iff⟩
  refine ⟨s.markLines, s.linesOf_picture, s.length_markLines, fun y hy =>
    ⟨Screen.length_markLine hy, fun x hx => ?_⟩⟩
  rw [Screen.mark_at, pixelMark_eq_star_iff]

end Cpu

end ChipEight
