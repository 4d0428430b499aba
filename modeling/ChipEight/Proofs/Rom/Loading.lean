import ChipEight.Proofs.Board.Footprint
import ChipEight.Proofs.Memory.Access
import ChipEight.Rom.File

namespace ChipEight

namespace Rom

variable {name : String} {data : List UInt8} {origin : UInt16} {rom : Rom}

theorem check_of_le {capacity : Nat} (hdata : data ≠ []) (h : data.length ≤ capacity) :
    check name data capacity = .ok { name, data } := by
  rw [check, if_neg (by simpa using hdata), if_neg (Nat.not_lt.2 h)]

theorem check_of_lt {capacity : Nat} (h : capacity < data.length) :
    check name data capacity = .error (.tooLarge name data.length capacity) := by
  have hdata : data ≠ [] := List.ne_nil_of_length_pos (Nat.zero_lt_of_lt h)
  rw [check, if_neg (by simpa using hdata), if_pos h]

theorem check_eq_ok_iff {capacity : Nat} :
    check name data capacity = .ok rom ↔
      data ≠ [] ∧ data.length ≤ capacity ∧ rom = { name, data } := by
  constructor
  · intro h
    have hdata : data ≠ [] := by
      rintro rfl
      cases h
    rcases Nat.lt_or_ge capacity data.length with hlarge | hfits
    · rw [check_of_lt hlarge] at h
      cases h
    · rw [check_of_le hdata hfits] at h
      exact ⟨hdata, hfits, (Except.ok.inj h).symm⟩
  · rintro ⟨hdata, hfits, rfl⟩
    exact check_of_le hdata hfits

theorem lt_length_of_tooLarge {capacity length room : Nat} {n : String}
    (h : check name data capacity = .error (.tooLarge n length room)) :
    room = capacity ∧ capacity < data.length := by
  rcases Nat.lt_or_ge capacity data.length with hlarge | hfits
  · rw [check_of_lt hlarge] at h
    cases h
    exact ⟨rfl, hlarge⟩
  · by_cases hdata : data = []
    · subst hdata
      cases h
    · rw [check_of_le hdata hfits] at h
      cases h

theorem exists_check_of_delivered {delivered : Except RomError (List UInt8)}
    (h : ofDelivered name delivered origin = .ok rom) :
    ∃ data, delivered = .ok data ∧ check name data (capacityAt origin) = .ok rom := by
  cases delivered with
  | error f => cases h
  | ok data => exact ⟨data, rfl, h⟩

/-- What an archive delivers for the name of an entry is left open. -/
inductive Accepted (origin : UInt16) (rom : Rom) : Prop where
  | file (path : String) (content : FileContent) (h : ofFile path content origin = .ok rom)
  | entry (name : String) (delivered : Except RomError (List UInt8))
      (h : ofDelivered name delivered origin = .ok rom)

theorem Accepted.archive (a : Archive) (name : String) (h : a.extract name origin = .ok rom) :
    rom.Accepted origin :=
  .entry name (a.delivered name) h

theorem Accepted.exists_check (h : rom.Accepted origin) :
    ∃ name data, check name data (capacityAt origin) = .ok rom := by
  cases h with
  | file path content h =>
    obtain ⟨data, _, hcheck⟩ := exists_check_of_delivered h
    exact ⟨_, data, hcheck⟩
  | entry name delivered h =>
    obtain ⟨data, _, hcheck⟩ := exists_check_of_delivered h
    exact ⟨name, data, hcheck⟩

theorem Accepted.inside (h : rom.Accepted origin) :
    origin.toNat + rom.data.length ≤ memorySize := by
  obtain ⟨name, data, hcheck⟩ := h.exists_check
  obtain ⟨hdata, hfits, rfl⟩ := check_eq_ok_iff.1 hcheck
  have hpos : 0 < data.length := List.length_pos_iff.2 hdata
  rw [capacityAt] at hfits
  change origin.toNat + data.length ≤ memorySize
  omega

end Rom

namespace Board

variable {b : Board} {data : List UInt8} {origin : UInt16}

theorem board_load (b : Board) (data : List UInt8) (origin : UInt16) :
    (b.load data origin).board = { b with memory := b.memory.store origin.toNat data } := by
  rw [load, Memory.writeAll_eq]

theorem outcome_load (b : Board) (data : List UInt8) (origin : UInt16) :
    (b.load data origin).outcome =
      if data.length ≤ Rom.capacityAt origin then .ok data.length
      else .error (.partialWrite (max origin.toNat memorySize) (Rom.capacityAt origin)) := by
  rw [load, Memory.writeAll_eq]
  rfl

theorem outcome_load_ok_iff :
    (b.load data origin).outcome = .ok data.length ↔ data.length ≤ Rom.capacityAt origin := by
  rw [outcome_load]
  split
  · next hfits => exact iff_of_true rfl hfits
  · next hlarge => exact iff_of_false nofun hlarge

theorem agreesAt_load (b : Board) {p : Part}
    (hp : ∀ a, p = .memory a → a < origin.toNat ∨ origin.toNat + data.length ≤ a) :
    b.AgreesAt (b.load data origin).board p := by
  rw [board_load]
  cases p with
  | memory a =>
    refine (b.memory.get_store origin.toNat a data).trans (if_neg ?_)
    have hout := hp a rfl
    omega
  | _ => rfl

theorem check_agrees_with_load (name : String) (data : List UInt8) (origin : UInt16) (b : Board) :
    (∃ rom, Rom.check name data (Rom.capacityAt origin) = .ok rom) ↔
      data ≠ [] ∧ (b.load data origin).outcome = .ok data.length := by
  simp only [Rom.check_eq_ok_iff, outcome_load_ok_iff, exists_and_left, exists_eq, and_true]

theorem outcome_load_of_tooLarge {name n : String} {length room : Nat} (b : Board)
    (h : Rom.check name data (Rom.capacityAt origin) = .error (.tooLarge n length room)) :
    (b.load data origin).outcome = .error (.partialWrite (max origin.toNat memorySize) room) := by
  obtain ⟨rfl, hlarge⟩ := Rom.lt_length_of_tooLarge h
  rw [outcome_load, if_neg (Nat.not_le.2 hlarge)]

theorem loadRom_of_accepted {rom : Rom} (h : rom.Accepted origin) (hb : b.cpu.start = origin) :
    let reply := b.loadRom rom
    reply.outcome = .ok rom.data.length ∧
      reply.board.memory.range origin.toNat rom.data.length = .ok rom.data ∧
      ∀ p : Part,
        (∀ a, p = .memory a → a < origin.toNat ∨ origin.toNat + rom.data.length ≤ a) →
        b.AgreesAt reply.board p := by
  subst hb
  have hin := h.inside
  have hfits : rom.data.length ≤ Rom.capacityAt b.cpu.start := by
    rw [Rom.capacityAt]
    omega
  refine ⟨outcome_load_ok_iff.2 hfits, ?_, fun p hp => b.agreesAt_load hp⟩
  rw [loadRom, board_load]
  exact Memory.range_store hin

theorem loading_agrees_with_checking :
    (∀ (name : String) (data : List UInt8) (origin : UInt16) (b : Board),
      ((∃ rom, Rom.check name data (Rom.capacityAt origin) = .ok rom) ↔
        data ≠ [] ∧ (b.load data origin).outcome = .ok data.length) ∧
      ∀ n length room,
        Rom.check name data (Rom.capacityAt origin) = .error (.tooLarge n length room) →
        (b.load data origin).outcome =
          .error (.partialWrite (max origin.toNat memorySize) room)) ∧
    ∀ (origin : UInt16) (rom : Rom) (b : Board), rom.Accepted origin → b.cpu.start = origin →
      let reply := b.loadRom rom
      reply.outcome = .ok rom.data.length ∧
        reply.board.memory.range origin.toNat rom.data.length = .ok rom.data ∧
        ∀ p : Part,
          (∀ a, p = .memory a → a < origin.toNat ∨ origin.toNat + rom.data.length ≤ a) →
          b.AgreesAt reply.board p :=
  ⟨fun name data origin b =>
    ⟨check_agrees_with_load name data origin b, fun _ _ _ h => b.outcome_load_of_tooLarge h⟩,
    fun _ _ _ h hb => loadRom_of_accepted h hb⟩

theorem loading_agrees_with_checking_last :
    let rom : Rom := { name := FileName.ofPath "jump.ch8", data := [0x1F, 0xFE] }
    let b := powerOn .shared 0xFFE (.cycle [171])
    (rom.Accepted 0xFFE ∧ b.cpu.start = 0xFFE) ∧
      (b.loadRom rom).outcome = .ok 2 ∧
      (b.loadRom rom).board.memory.range 0xFFE 2 = .ok [0x1F, 0xFE] := by
  intro rom b
  have haccepted : rom.Accepted 0xFFE := .file "jump.ch8" (.bytes [0x1F, 0xFE]) rfl
  obtain ⟨hout, hrange, _⟩ := loading_agrees_with_checking.2 0xFFE rom b haccepted rfl
  exact ⟨⟨haccepted, rfl⟩, hout, hrange⟩

end Board

end ChipEight
