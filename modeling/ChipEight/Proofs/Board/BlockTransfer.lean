import ChipEight.Proofs.Board.Flow
import ChipEight.Proofs.Board.Residue
import ChipEight.Proofs.Memory.Access
import Mathlib.Data.List.FinRange
import Mathlib.Data.Fintype.Basic

namespace ChipEight

namespace Board

variable {b moved later : Board} {x y : RegisterName} {ys : List RegisterName}

def writeEach (b : Board) (offset : Nat) : List UInt8 → Effect
  | [] => b.proceed
  | byte :: rest =>
    match b.memory.write (b.cpu.index.toNat + offset) byte with
    | .ok memory => writeEach { b with memory } (offset + 1) rest
    | .error f => b.abort f

theorem writeEach_eq (b : Board) {offset : Nat} (h : b.fits offset = true) (data : List UInt8) :
    b.writeEach offset data =
      b.requireRoom (offset + data.length)
        { b with memory := b.memory.store (b.cpu.index.toNat + offset) data } := by
  induction data generalizing b offset with
  | nil => exact (requireRoom_of_fits h).symm
  | cons byte rest ih =>
    cases hnext : b.fits (offset + 1) with
    | true =>
      have hrest := ih { b with memory := b.memory.put (b.cpu.index.toNat + offset) byte } hnext
      rw [Nat.add_right_comm] at hrest
      rw [writeEach, b.memory.write_of_lt (index_of_fits_succ hnext)]
      exact hrest
    | false =>
      obtain ⟨hout, hfault⟩ := index_of_fits_only h hnext
      have hfits : b.fits (offset + (byte :: rest).length) = false :=
        fits_eq_false_of_le (Nat.add_le_add_left (Nat.succ_le_succ (Nat.zero_le _)) _) hnext
      rw [writeEach, b.memory.write_of_le hout, requireRoom_of_not_fits hfits, hfault,
        Memory.store_of_le hout]

theorem storeDigits_eq_writeEach (b : Board) (x : RegisterName) :
    b.storeDigits x = b.writeEach 0 (decimalDigits (b.cpu.register x)) :=
  (b.writeEach_eq b.fits_zero (decimalDigits (b.cpu.register x))).symm

def storeOne (b : Board) (y : RegisterName) : Except Fault Board :=
  (b.memory.write b.cpu.index.toNat (b.cpu.register y)).map fun memory => { b with memory }

def loadOne (b : Board) (y : RegisterName) : Except Fault Board :=
  (b.memory.read b.cpu.index.toNat).map (b.setRegister y)

def countIndex (b : Board) : Option Board :=
  if b.cpu.index + 1 = 0 then none else some (b.setIndex (b.cpu.index + 1))

def moveEach (move : Board → RegisterName → Except Fault Board) (b : Board) :
    List RegisterName → Option Effect
  | [] => some b.proceed
  | y :: rest =>
    match move b y with
    | .ok moved => moved.countIndex.bind fun counted => counted.moveEach move rest
    | .error f => some (b.abort f)

theorem overrun_of_outside (h : memorySize ≤ b.cpu.index.toNat) :
    b.overrun = .outOfRange b.cpu.index.toNat memorySize := by
  rw [overrun, Memory.overrun, Nat.max_eq_left h]

theorem storeOne_of_lt (h : b.cpu.index.toNat < memorySize) (y : RegisterName) :
    b.storeOne y = .ok (b.storeAtIndex [b.cpu.register y]) := by
  rw [storeOne, b.memory.write_of_lt h]
  rfl

theorem storeOne_of_le (h : memorySize ≤ b.cpu.index.toNat) (y : RegisterName) :
    b.storeOne y = .error b.overrun := by
  rw [storeOne, b.memory.write_of_le h, overrun_of_outside h]
  rfl

theorem loadOne_of_lt (h : b.cpu.index.toNat < memorySize) (y : RegisterName) :
    b.loadOne y = .ok (b.setRegister y (b.memory.get b.cpu.index.toNat)) := by
  rw [loadOne, b.memory.read_of_lt h]
  rfl

theorem loadOne_of_le (h : memorySize ≤ b.cpu.index.toNat) (y : RegisterName) :
    b.loadOne y = .error b.overrun := by
  rw [loadOne, b.memory.read_of_le h, overrun_of_outside h]
  rfl

theorem toNat_advanceIndex_one (h : b.cpu.index.toNat < memorySize) :
    (b.advanceIndex 1).cpu.index.toNat = b.cpu.index.toNat + 1 :=
  toNat_advanceIndex b (Nat.lt_of_le_of_lt h (by decide))

theorem advanceIndex_zero (b : Board) : b.advanceIndex 0 = b := by
  simp [advanceIndex, setIndex]

theorem advanceIndex_advanceIndex (b : Board) (m n : Nat) :
    (b.advanceIndex m).advanceIndex n = b.advanceIndex (m + n) := by
  simp [advanceIndex, setIndex, UInt16.add_assoc]

theorem countIndex_of_lt (h : b.cpu.index.toNat < memorySize) :
    b.countIndex = some (b.advanceIndex 1) := by
  refine if_neg fun hzero => ?_
  have hnext : (b.cpu.index + 1).toNat = b.cpu.index.toNat + 1 := toNat_advanceIndex_one h
  rw [hzero] at hnext
  exact absurd hnext nofun

theorem moveEach_of_ok {move : Board → RegisterName → Except Fault Board}
    (hmove : move b y = .ok moved) (h : moved.cpu.index.toNat < memorySize) :
    b.moveEach move (y :: ys) = (moved.advanceIndex 1).moveEach move ys := by
  rw [moveEach, hmove]
  simp only [countIndex_of_lt h, Option.bind_some]

theorem moveEach_of_error {move : Board → RegisterName → Except Fault Board} {f : Fault}
    (hmove : move b y = .error f) : b.moveEach move (y :: ys) = some (b.abort f) := by
  rw [moveEach, hmove]

theorem requireRoom_advanceIndex (h : b.cpu.index.toNat < memorySize) (count : Nat)
    (changed : Board) :
    (b.advanceIndex 1).requireRoom count changed = b.requireRoom (count + 1) changed := by
  have hnext := toNat_advanceIndex_one h
  have hfits : (b.advanceIndex 1).fits count = b.fits (count + 1) := by
    rw [fits, fits, hnext, Memory.room, Memory.room, decide_eq_decide]
    omega
  have hoverrun : (b.advanceIndex 1).overrun = b.overrun := by
    rw [overrun, overrun, hnext, Memory.overrun, Memory.overrun, Nat.max_eq_right h,
      Nat.max_eq_right (Nat.le_of_lt h)]
  rw [requireRoom, requireRoom, hfits, hoverrun]

theorem requireRoom_of_outside (h : memorySize ≤ b.cpu.index.toNat) (count : Nat)
    (changed : Board) : b.requireRoom (count + 1) changed = changed.abort b.overrun := by
  refine requireRoom_of_not_fits ((b.fits_eq_false_iff _).2 ⟨Nat.succ_pos _, ?_⟩)
  omega

theorem storeAtIndex_cons (h : b.cpu.index.toNat < memorySize) (byte : UInt8)
    (rest : List UInt8) :
    ((b.storeAtIndex [byte]).advanceIndex 1).storeAtIndex rest =
      (b.storeAtIndex (byte :: rest)).advanceIndex 1 := by
  have hnext : ((b.storeAtIndex [byte]).advanceIndex 1).cpu.index.toNat =
      b.cpu.index.toNat + 1 := toNat_advanceIndex_one h
  rw [storeAtIndex, hnext]
  rfl

theorem moveEach_storeOne (b : Board) (ys : List RegisterName) :
    b.moveEach storeOne ys =
      some (b.requireRoom ys.length
        ((b.storeAtIndex (ys.map b.cpu.register)).advanceIndex
          (min ys.length (Memory.room b.cpu.index.toNat)))) := by
  induction ys generalizing b with
  | nil =>
    rw [List.length_nil, Nat.zero_min, advanceIndex_zero]
    rfl
  | cons y rest ih =>
    -- Inside of the memory one byte is moved and the rest is moved from the next address on; at
    -- the first address outside of it the loop ends, and so does the closed form.
    rcases Nat.lt_or_ge b.cpu.index.toNat memorySize with hin | hout
    · let moved := b.storeAtIndex [b.cpu.register y]
      have hmoved : moved.cpu.index.toNat < memorySize := hin
      have hnext : (moved.advanceIndex 1).cpu.index.toNat = b.cpu.index.toNat + 1 :=
        toNat_advanceIndex_one hmoved
      have hroom : Memory.room b.cpu.index.toNat =
          Memory.room (moved.advanceIndex 1).cpu.index.toNat + 1 := by
        rw [hnext, Memory.room, Memory.room]
        omega
      rw [moveEach_of_ok (storeOne_of_lt hin y) hmoved, ih, requireRoom_advanceIndex hmoved,
        storeAtIndex_cons hin, advanceIndex_advanceIndex, hroom, List.length_cons,
        Nat.add_min_add_right, Nat.add_comm 1]
      rfl
    · have hroom : Memory.room b.cpu.index.toNat = 0 := Nat.sub_eq_zero_of_le hout
      have hkept : b.storeAtIndex ((y :: rest).map b.cpu.register) = b :=
        congrArg (fun memory => { b with memory }) (Memory.store_of_le hout _)
      rw [moveEach_of_error (storeOne_of_le hout y), List.length_cons,
        requireRoom_of_outside hout, hroom, Nat.min_zero, advanceIndex_zero, hkept]

def fillFrom (b : Board) (k : Nat) (values : List UInt8) : Board :=
  { b with cpu := { b.cpu with
      registers := b.cpu.registers.mapIdx fun i old =>
        if i < k then old else values.getD (i - k) old } }

theorem fillFrom_zero (b : Board) (values : List UInt8) :
    b.fillFrom 0 values = b.fillRegisters values := by
  simp [fillFrom, fillRegisters]

theorem fillFrom_nil (b : Board) (k : Nat) : b.fillFrom k [] = b := by
  have hkept : b.cpu.registers.mapIdx (fun i old => if i < k then old else [].getD (i - k) old) =
      b.cpu.registers := by
    refine Vector.ext fun i hi => ?_
    simp
  rw [fillFrom, hkept]

theorem fillFrom_cons (b : Board) (y : RegisterName) (value : UInt8) (rest : List UInt8) :
    b.fillFrom y.val (value :: rest) = (b.setRegister y value).fillFrom (y.val + 1) rest := by
  have hregisters :
      b.cpu.registers.mapIdx (fun i old =>
          if i < y.val then old else (value :: rest).getD (i - y.val) old) =
        (b.cpu.registers.set y value).mapIdx fun i old =>
          if i < y.val + 1 then old else rest.getD (i - (y.val + 1)) old := by
    refine Vector.ext fun i hi => ?_
    rw [Vector.getElem_mapIdx, Vector.getElem_mapIdx, Vector.getElem_set]
    rcases Nat.lt_trichotomy i y.val with hlt | rfl | hgt
    · rw [if_pos hlt, if_pos (Nat.lt_succ_of_lt hlt), if_neg (Nat.ne_of_gt hlt)]
    · rw [if_neg (Nat.lt_irrefl _), if_pos (Nat.lt_succ_self _), if_pos rfl, Nat.sub_self,
        List.getD_cons_zero]
    · have hpast : i - y.val = i - (y.val + 1) + 1 := by omega
      rw [if_neg (Nat.lt_asymm hgt), if_neg (Nat.not_lt.2 hgt), if_neg (Nat.ne_of_lt hgt), hpast,
        List.getD_cons_succ]
  rw [fillFrom, hregisters]
  rfl

theorem moveEach_loadOne (b : Board) {k : Nat}
    (hys : ys.map Fin.val = List.range' k ys.length) :
    b.moveEach loadOne ys =
      some (b.requireRoom ys.length
        ((b.fillFrom k (b.memory.window b.cpu.index.toNat ys.length)).advanceIndex
          (b.memory.window b.cpu.index.toNat ys.length).length)) := by
  induction ys generalizing b k with
  | nil =>
    rw [List.length_nil, Memory.window_zero, fillFrom_nil, List.length_nil, advanceIndex_zero]
    rfl
  | cons y rest ih =>
    rw [List.map_cons, List.length_cons, List.range'_succ, List.cons.injEq] at hys
    obtain ⟨rfl, hrest⟩ := hys
    rcases Nat.lt_or_ge b.cpu.index.toNat memorySize with hin | hout
    · let moved := b.setRegister y (b.memory.get b.cpu.index.toNat)
      have hmoved : moved.cpu.index.toNat < memorySize := hin
      have hnext : (moved.advanceIndex 1).cpu.index.toNat = b.cpu.index.toNat + 1 :=
        toNat_advanceIndex_one hmoved
      let values := b.memory.window (b.cpu.index.toNat + 1) rest.length
      have hfilled : ((moved.advanceIndex 1).fillFrom (y.val + 1) values).advanceIndex
          values.length = (moved.fillFrom (y.val + 1) values).advanceIndex (values.length + 1) := by
        rw [Nat.add_comm values.length 1, ← advanceIndex_advanceIndex]
        rfl
      rw [moveEach_of_ok (loadOne_of_lt hin y) hmoved, ih _ hrest,
        requireRoom_advanceIndex hmoved, hnext, List.length_cons, Memory.window_succ hin,
        fillFrom_cons, List.length_cons]
      exact congrArg (fun filled => some (b.requireRoom (rest.length + 1) filled)) hfilled
    · rw [moveEach_of_error (loadOne_of_le hout y), List.length_cons,
        requireRoom_of_outside hout, Memory.window_of_le hout, fillFrom_nil, List.length_nil,
        advanceIndex_zero]

def registersTo (x : RegisterName) : List RegisterName :=
  (List.finRange registerCount).take (x.val + 1)

theorem length_registersTo (x : RegisterName) : (registersTo x).length = x.val + 1 := by
  rw [registersTo, List.length_take, List.length_finRange]
  exact Nat.min_eq_left x.isLt

theorem val_registersTo (x : RegisterName) :
    (registersTo x).map Fin.val = List.range' 0 (registersTo x).length := by
  rw [length_registersTo, registersTo, List.map_take, List.map_coe_finRange_eq_range,
    List.take_range, Nat.min_eq_left x.isLt, List.range_eq_range']

theorem map_register_registersTo (b : Board) (x : RegisterName) :
    (registersTo x).map b.cpu.register = b.firstRegisters x := by
  have hall : (List.finRange registerCount).map b.cpu.register = b.cpu.registers.toList := by
    rw [← List.ofFn_eq_map, ← Vector.toList_ofFn]
    exact congrArg Vector.toList Vector.ofFn_getElem
  rw [registersTo, firstRegisters, List.map_take, hall]

theorem storeRegisters_eq_moveEach (b : Board) (x : RegisterName) :
    b.moveEach storeOne (registersTo x) = some (b.storeRegisters x) := by
  rw [moveEach_storeOne, map_register_registersTo, length_registersTo]
  rfl

theorem loadRegisters_eq_moveEach (b : Board) (x : RegisterName) :
    b.moveEach loadOne (registersTo x) = some (b.loadRegisters x) := by
  rw [b.moveEach_loadOne (val_registersTo x), length_registersTo, fillFrom_zero]
  rfl

structure Stores (b stored : Board) (x : RegisterName) : Prop where
  bytes : ∀ y ≤ x, stored.memory.get (b.cpu.index.toNat + y.val) = b.cpu.register y
  others : ∀ a, a < b.cpu.index.toNat ∨ b.cpu.index.toNat + x.val < a →
    stored.memory.get a = b.memory.get a
  index : stored.cpu.index.toNat = b.cpu.index.toNat + x.val + 1

structure Loads (b filled : Board) (x : RegisterName) : Prop where
  registers : ∀ y ≤ x, filled.cpu.register y = b.memory.get (b.cpu.index.toNat + y.val)
  others : ∀ y, x < y → filled.cpu.register y = b.cpu.register y
  memory : filled.memory = b.memory
  index : filled.cpu.index.toNat = b.cpu.index.toNat + x.val + 1

theorem stores_storeAtIndex (hroom : b.cpu.index.toNat + x.val + 1 ≤ memorySize) :
    b.Stores ((b.storeAtIndex (b.firstRegisters x)).advanceIndex (x.val + 1)) x where
  bytes y hy := by
    have hle := Fin.le_def.1 hy
    have hstored : y.val < (b.firstRegisters x).length := by
      rw [length_firstRegisters]
      exact Nat.lt_succ_of_le hle
    have hin : y.val < b.room := by
      rw [room]
      omega
    exact (b.get_storeAtIndex hstored hin).trans (b.getD_firstRegisters hy)
  others a ha := by
    refine (b.memory.get_store _ _ _).trans (if_neg ?_)
    rw [length_firstRegisters]
    omega
  index := b.toNat_advanceIndex (Nat.lt_of_le_of_lt hroom (by decide))

theorem loads_fillRegisters (hroom : b.cpu.index.toNat + x.val + 1 ≤ memorySize) :
    b.Loads ((b.fillRegisters (b.memory.window b.cpu.index.toNat (x.val + 1))).advanceIndex
      (x.val + 1)) x where
  registers y hy := by
    have hin : y.val < (b.memory.window b.cpu.index.toNat (x.val + 1)).length := by
      have hle := Fin.le_def.1 hy
      rw [Memory.length_window]
      omega
    refine (b.register_fillRegisters _ y).trans ?_
    rw [List.getD_eq_getElem _ _ hin, Memory.getElem_window]
  others y hy := by
    have hout : (b.memory.window b.cpu.index.toNat (x.val + 1)).length ≤ y.val := by
      have hlt := Fin.lt_def.1 hy
      rw [Memory.length_window]
      omega
    refine (b.register_fillRegisters _ y).trans ?_
    rw [List.getD_eq_default _ _ hout]
  memory := rfl
  index := b.toNat_advanceIndex (Nat.lt_of_le_of_lt hroom (by decide))

theorem stores_step (hrun : b.cpu.mode = .running)
    (hi : b.Fetches (.transfer .storeRegisters x))
    (hroom : b.cpu.index.toNat + x.val + 1 ≤ memorySize) :
    b.step.outcome = .ok .nothing ∧ b.Stores b.step.board x := by
  have hall : min (x.val + 1) (Memory.room b.cpu.index.toNat) = x.val + 1 := by
    rw [Memory.room]
    omega
  rw [step_of_fetches hrun hi, execute, transfer, storeRegisters, hall,
    requireRoom_of_fits (fits_of_le hroom)]
  obtain ⟨hbytes, hothers, hindex⟩ := stores_storeAtIndex hroom
  exact ⟨rfl, hbytes, hothers, hindex⟩

theorem loads_step (hrun : b.cpu.mode = .running)
    (hi : b.Fetches (.transfer .loadRegisters x))
    (hroom : b.cpu.index.toNat + x.val + 1 ≤ memorySize) :
    b.step.outcome = .ok .nothing ∧ b.Loads b.step.board x := by
  have hall : (b.memory.window b.cpu.index.toNat (x.val + 1)).length = x.val + 1 := by
    rw [Memory.length_window]
    omega
  rw [step_of_fetches hrun hi, execute, transfer, loadRegisters, hall,
    requireRoom_of_fits (fits_of_le hroom)]
  obtain ⟨hregisters, hothers, hmemory, hindex⟩ := loads_fillRegisters hroom
  exact ⟨rfl, hregisters, hothers, hmemory, hindex⟩

theorem Stores.restores {stored filled : Board} (hstores : b.Stores stored x)
    (hloads : later.Loads filled x) (hindex : later.cpu.index = b.cpu.index)
    (hbytes : ∀ y ≤ x, later.memory.get (b.cpu.index.toNat + y.val) =
      stored.memory.get (b.cpu.index.toNat + y.val)) :
    ∀ y ≤ x, filled.cpu.register y = b.cpu.register y := by
  intro y hy
  have hread := hloads.registers y hy
  rw [hindex, hbytes y hy] at hread
  exact hread.trans (hstores.bytes y hy)

theorem Loads.restores {filled stored : Board} (hloads : b.Loads filled x)
    (hstores : later.Stores stored x) (hindex : later.cpu.index = b.cpu.index)
    (hmemory : later.memory = filled.memory)
    (hregisters : ∀ y ≤ x, later.cpu.register y = filled.cpu.register y) :
    stored.memory = b.memory := by
  refine Memory.ext_get fun a _ => ?_
  by_cases hout : a < b.cpu.index.toNat ∨ b.cpu.index.toNat + x.val < a
  · rw [hstores.others a (hindex ▸ hout), hmemory, hloads.memory]
  · obtain ⟨hge, hle⟩ := not_or.1 hout
    obtain ⟨k, rfl⟩ := Nat.exists_eq_add_of_le (Nat.le_of_not_lt hge)
    have hk : k ≤ x.val := by omega
    let y : RegisterName := ⟨k, Nat.lt_of_le_of_lt hk x.isLt⟩
    have hwritten := hstores.bytes y hk
    rw [hindex, hregisters y hk] at hwritten
    exact hwritten.trans (hloads.registers y hk)

theorem store_and_fill_inverse (hrun : b.cpu.mode = .running)
    (hroom : b.cpu.index.toNat + x.val + 1 ≤ memorySize) :
    let moved := b.step.board
    (b.Fetches (.transfer .storeRegisters x) →
      b.step.outcome = .ok .nothing ∧ b.Stores moved x ∧
      ∀ later : Board, later.cpu.mode = .running → later.Fetches (.transfer .loadRegisters x) →
        later.cpu.index = b.cpu.index →
        (∀ y ≤ x, later.memory.get (b.cpu.index.toNat + y.val) =
          moved.memory.get (b.cpu.index.toNat + y.val)) →
        later.step.outcome = .ok .nothing ∧ later.Loads later.step.board x ∧
          ∀ y ≤ x, later.step.board.cpu.register y = b.cpu.register y) ∧
    (b.Fetches (.transfer .loadRegisters x) →
      b.step.outcome = .ok .nothing ∧ b.Loads moved x ∧
      ∀ later : Board, later.cpu.mode = .running → later.Fetches (.transfer .storeRegisters x) →
        later.cpu.index = b.cpu.index → later.memory = moved.memory →
        (∀ y ≤ x, later.cpu.register y = moved.cpu.register y) →
        later.step.outcome = .ok .nothing ∧ later.Stores later.step.board x ∧
          later.step.board.memory = b.memory) ∧
    b.moveEach storeOne (registersTo x) = some (b.storeRegisters x) ∧
    b.moveEach loadOne (registersTo x) = some (b.loadRegisters x) := by
  intro moved
  refine ⟨fun hi => ?_, fun hi => ?_, b.storeRegisters_eq_moveEach x, b.loadRegisters_eq_moveEach x⟩
  · obtain ⟨hok, hstores⟩ := stores_step hrun hi hroom
    refine ⟨hok, hstores, fun later hlater hfill hindex hbytes => ?_⟩
    obtain ⟨hfilled, hloads⟩ := loads_step hlater hfill (hindex ▸ hroom)
    exact ⟨hfilled, hloads, hstores.restores hloads hindex hbytes⟩
  · obtain ⟨hok, hloads⟩ := loads_step hrun hi hroom
    refine ⟨hok, hloads, fun later hlater hstore hindex hmemory hregisters => ?_⟩
    obtain ⟨hstored, hstores⟩ := stores_step hlater hstore (hindex ▸ hroom)
    exact ⟨hstored, hstores, hloads.restores hstores hindex hmemory hregisters⟩

theorem store_and_fill_inverse_overwritten :
    let b := ((loaded [0xF2, 0x55, 0xF2, 0x65]).setRegister 1 7).setIndex 0x300
    let later := (b.step.board.setRegister 1 9).setIndex 0x300
    (b.cpu.mode = .running ∧ b.cpu.index.toNat + (2 : RegisterName).val + 1 ≤ memorySize ∧
      b.Fetches (.transfer .storeRegisters 2)) ∧
      b.step.board.memory.get 0x301 = 7 ∧ later.step.outcome = .ok .nothing ∧
      later.step.board.cpu.register 1 = 7 ∧ later.step.board.cpu.index.toNat = 0x303 := by
  intro b later
  have hloaded : (loaded [0xF2, 0x55, 0xF2, 0x65]).Fetches (.transfer .storeRegisters 2) :=
    fetches_loaded rfl
  have hi : b.Fetches (.transfer .storeRegisters 2) := hloaded.congr rfl rfl
  have hindex : b.cpu.index.toNat = 0x300 := rfl
  have hroom : b.cpu.index.toNat + (2 : RegisterName).val + 1 ≤ memorySize := by
    rw [hindex]
    decide
  obtain ⟨hok, hstores, hinverse⟩ := (store_and_fill_inverse rfl hroom).1 hi
  have hmode : later.cpu.mode = .running :=
    agreesAt_step_of_ok (p := .mode) rfl hi hok nofun (by rintro (h | ⟨_, h, _⟩) <;> cases h)
  have hpc : later.cpu.pc.toNat = 0x202 := (flow_step_of_ok rfl hi hok).2.1
  have hprogram {a : Nat} (ha : a < 0x300) : later.memory.get a =
      (Memory.initial.store programStart.toNat [0xF2, 0x55, 0xF2, 0x65]).get a := by
    rw [← memory_loaded]
    exact hstores.others a (.inl (hindex.symm ▸ ha))
  have hfetch : later.Fetches (.transfer .loadRegisters 2) := by
    refine ⟨by rw [hpc]; decide, ?_⟩
    rw [wordAtPc, hpc, hprogram (by decide), hprogram (by decide), Memory.get_store,
      Memory.get_store]
    rfl
  obtain ⟨hfilled, hloads, hrestored⟩ := hinverse later hmode hfetch rfl fun _ _ => rfl
  exact ⟨⟨rfl, hroom, hi⟩, hstores.bytes 1 (by decide), hfilled, hrestored 1 (by decide),
    hloads.index⟩

end Board

end ChipEight
