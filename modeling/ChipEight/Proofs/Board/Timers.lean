import ChipEight.Proofs.Board.Executions
import ChipEight.Proofs.Board.Likeness
import ChipEight.Proofs.Since
import ChipEight.Tone.Bank
import Mathlib.Data.List.Induction

namespace ChipEight

inductive Timer where
  | delay
  | sound
  deriving DecidableEq, Repr

namespace Timer

def part : Timer → Part
  | delay => .delay
  | sound => .sound

def write : Timer → Transfer
  | delay => .setDelay
  | sound => .setSound

theorem writer_part (t : Timer) : t.part.writer = some t.write := by
  cases t <;> rfl

theorem control_part (t : Timer) : t.part.control = true ∧ t.part ≠ .pc := by
  cases t <;> exact ⟨rfl, nofun⟩

theorem keyed_part (t : Timer) : t.part.keyed = false := by
  cases t <;> rfl

theorem part_ne_register (t : Timer) (x : RegisterName) : t.part ≠ .register x := by
  cases t <;> nofun

end Timer

def Cpu.timer (c : Cpu) : Timer → UInt8
  | .delay => c.delay
  | .sound => c.sound

theorem Cpu.timer_tick (c : Cpu) (t : Timer) : c.tick.timer t = countDown (c.timer t) 1 := by
  cases t with
  | delay | sound => rfl

def Command.ticks : Command → Bool
  | tick => true
  | step | key _ | keyOnCpu _ | load .. | loadProgram _ | loadRom _ | setRegister .. | setIndex _
  | setBroken _ | setShutdown _ | setScreen _ | reset | resetCpu => false

namespace Board

variable {b b' : Board} {c : Command} {t : Timer}

theorem timer_eq_of_agreesAt (h : b.AgreesAt b' t.part) : b'.cpu.timer t = b.cpu.timer t := by
  cases t with
  | delay | sound => exact h

theorem agreesAt_apply_timer (hresets : c.resets = false) (hticks : c.ticks = false)
    (hw : ∀ i, b.executed c = some i → ∀ x, i ≠ .transfer t.write x) :
    b.AgreesAt (b.apply c) t.part := by
  cases c with
  | step =>
    refine agreesAt_step_of_executed t.control_part.1 t.control_part.2 fun i hi hm => ?_
    obtain ⟨x, hx⟩ := (b.mem_footprint_iff_of_writer i t.writer_part).1 hm
    exact hw i hi x hx
  | tick => cases hticks
  | key e => exact b.agreesAt_handleKey e t.keyed_part
  | keyOnCpu key => exact b.agreesAt_pressOnCpu key t.keyed_part
  | setRegister x value => exact b.agreesAt_writeRegister x value t.part_ne_register
  | reset | resetCpu => cases hresets
  | _ => cases t <;> rfl

theorem toNat_timer_apply (hresets : c.resets = false)
    (hw : ∀ i, b.executed c = some i → ∀ x, i ≠ .transfer t.write x) :
    ((b.apply c).cpu.timer t).toNat = (b.cpu.timer t).toNat - c.ticks.toNat := by
  cases c with
  | tick =>
    have htick : (b.apply .tick).cpu.timer t = countDown (b.cpu.timer t) 1 := b.cpu.timer_tick t
    rw [htick, toNat_countDown]
    rfl
  | _ =>
    rw [timer_eq_of_agreesAt (agreesAt_apply_timer hresets rfl hw)]
    rfl

theorem toNat_timer_after {history : List Command} (hresets : ∀ c ∈ history, c.resets = false)
    (hw : ∀ e ∈ b.executions history, ∀ x, e.2 ≠ .transfer t.write x) :
    ((b.after history).cpu.timer t).toNat =
      (b.cpu.timer t).toNat - history.countP Command.ticks := by
  induction history generalizing b with
  | nil => rfl
  | cons c history ih =>
    obtain ⟨hc, hrest⟩ := List.forall_mem_cons.1 hresets
    obtain ⟨hexecuted, hlater⟩ := List.forall_mem_append.1 hw
    have hnext : ((b.apply c).cpu.timer t).toNat = (b.cpu.timer t).toNat - c.ticks.toNat := by
      refine toNat_timer_apply hc fun i hi => hexecuted (b.cpu.pc, i) ?_
      rw [hi]
      exact List.mem_singleton_self _
    have hcount : (c :: history).countP Command.ticks =
        history.countP Command.ticks + c.ticks.toNat := by
      rw [List.countP_cons]
      cases c.ticks <;> rfl
    have hafter := ih hrest hlater
    rw [hnext, Nat.sub_sub] at hafter
    rw [hcount, Nat.add_comm]
    exact hafter

def switches (b : Board) : Command → Option Bool
  | .tick => some (decide (0 < b.cpu.tick.sound))
  | .reset => some false
  | .step | .key _ | .keyOnCpu _ | .load .. | .loadProgram _ | .loadRom _ | .setRegister ..
  | .setIndex _ | .setBroken _ | .setShutdown _ | .setScreen _ | .resetCpu => none

theorem switches_eq_none_iff : b.switches c = none ↔ c ≠ .tick ∧ c ≠ .reset := by
  cases c <;> simp [switches]

theorem switches_eq_true_iff :
    b.switches c = some true ↔ c = .tick ∧ 0 < b.tick.1.cpu.sound := by
  cases c <;> simp [switches, tick]

theorem tone_apply (b : Board) (c : Command) :
    (b.apply c).tone = (b.switches c).elim b.tone b.tone.turn := by
  cases c with
  | step =>
    exact agreesAt_step_of_executed (p := .tone) rfl nofun fun i _ =>
      Part.not_mem_footprint b i rfl
  | key e => exact b.agreesAt_handleKey (p := .tone) e rfl
  | keyOnCpu key => exact b.agreesAt_pressOnCpu (p := .tone) key rfl
  | setRegister x value => exact b.agreesAt_writeRegister (p := .tone) x value nofun
  | _ => rfl

theorem sounding_apply_iff :
    (b.apply c).tone.sounding = true ↔
      b.switches c = some true ∨ b.switches c = none ∧ b.tone.sounding = true := by
  rw [tone_apply]
  cases b.switches c with
  | none => simp
  | some on => simp [Tone.turn]

def LastTickSounds (b : Board) (history : List Command) : Prop :=
  ∃ earlier later, history = earlier ++ .tick :: later ∧
    (∀ c ∈ later, c ≠ .tick ∧ c ≠ .reset) ∧ 0 < (b.after earlier).tick.1.cpu.sound

theorem lastTickSounds_iff_since (history : List Command) :
    b.LastTickSounds history ↔
      Since (fun earlier c => c = .tick ∧ 0 < (b.after earlier).tick.1.cpu.sound)
        (fun c => c ≠ .tick ∧ c ≠ .reset) history := by
  constructor
  · rintro ⟨earlier, later, hsplit, hquiet, hsound⟩
    exact ⟨earlier, .tick, later, hsplit, ⟨rfl, hsound⟩, hquiet⟩
  · rintro ⟨earlier, _, later, hsplit, ⟨rfl, hsound⟩, hquiet⟩
    exact ⟨earlier, later, hsplit, hquiet, hsound⟩

theorem sounding_after_iff (hsilent : b.tone.sounding = false) (history : List Command) :
    (b.after history).tone.sounding = true ↔ b.LastTickSounds history := by
  rw [lastTickSounds_iff_since]
  induction history using List.reverseRecOn with
  | nil =>
    exact iff_of_false (fun hsounding => absurd (hsilent.symm.trans hsounding) nofun)
      not_since_nil
  | append_singleton history c ih =>
    rw [after_append, since_snoc_iff, ← ih, ← switches_eq_true_iff, ← switches_eq_none_iff]
    exact sounding_apply_iff

end Board

namespace ToneBank

def hear (bank : ToneBank) (b : Board) (c : Command) : ToneBank :=
  (b.switches c).elim bank fun on => bank.put 0 ((bank.tone 0).turn on)

def hearAll (bank : ToneBank) (b : Board) : List Command → ToneBank
  | [] => bank
  | c :: later => (bank.hear b c).hearAll (b.apply c) later

structure InUnison (bank : ToneBank) (on : Bool) : Prop where
  kind : bank.kind = .shared
  same : ∀ other ∈ bank.sounding, other = on

variable {bank : ToneBank} {on : Bool} {b : Board}

theorem InUnison.heard (h : bank.InUnison on) {handle : Nat}
    (hin : handle < bank.sounding.length) : (bank.tone handle).heard = on := by
  rw [tone, Tone.heard, List.getD_eq_getElem _ _ hin]
  exact h.same _ (List.getElem_mem hin)

theorem InUnison.copy (h : bank.InUnison on) (hin : 0 < bank.sounding.length) :
    (bank.copy 0).1.InUnison on ∧
      (bank.copy 0).1.sounding.length = (bank.copy 0).2 + 1 := by
  refine ⟨⟨h.kind, List.forall_mem_append.2 ⟨h.same, ?_⟩⟩, List.length_append⟩
  exact List.forall_mem_singleton.2 (h.heard hin)

theorem InUnison.put (h : bank.InUnison on) (handle : Nat) (t : Tone) :
    (bank.put handle t).InUnison t.sounding ∧
      (bank.put handle t).sounding.length = bank.sounding.length := by
  have hput : bank.put handle t = ⟨.shared, bank.sounding.map fun _ => t.sounding⟩ := by
    rw [ToneBank.put, h.kind]
  rw [hput]
  refine ⟨⟨rfl, fun other hother => ?_⟩, List.length_map _⟩
  obtain ⟨_, _, rfl⟩ := List.mem_map.1 hother
  rfl

theorem InUnison.hear (h : bank.InUnison b.tone.sounding) (c : Command) :
    (bank.hear b c).InUnison (b.apply c).tone.sounding ∧
      (bank.hear b c).sounding.length = bank.sounding.length := by
  rw [ToneBank.hear, b.tone_apply]
  cases b.switches c with
  | none => exact ⟨h, rfl⟩
  | some on => exact h.put 0 ((bank.tone 0).turn on)

theorem InUnison.hearAll (h : bank.InUnison b.tone.sounding) (history : List Command) :
    (bank.hearAll b history).InUnison (b.after history).tone.sounding ∧
      (bank.hearAll b history).sounding.length = bank.sounding.length := by
  induction history generalizing bank b with
  | nil => exact ⟨h, rfl⟩
  | cons c history ih =>
    obtain ⟨hnext, hlength⟩ := h.hear c
    obtain ⟨hall, hlengths⟩ := ih hnext
    exact ⟨hall, hlengths.trans hlength⟩

theorem heard_listener (start : UInt16) (random : RandomSource) (earlier later : List Command) :
    let b := Board.powerOn .shared start random
    let made := (({ kind := .shared } : ToneBank).hearAll b earlier).copy 0
    ((made.1.hearAll (b.after earlier) later).tone made.2).heard =
      (b.after (earlier ++ later)).tone.sounding := by
  intro b made
  have hfirst : ({ kind := .shared } : ToneBank).InUnison b.tone.sounding :=
    ⟨rfl, List.forall_mem_singleton.2 rfl⟩
  obtain ⟨hearlier, hlength⟩ := hfirst.hearAll earlier
  obtain ⟨hcopy, hhandles⟩ := hearlier.copy (hlength ▸ Nat.one_pos)
  obtain ⟨hlater, hsame⟩ := hcopy.hearAll later
  rw [Board.after_append]
  refine hlater.heard ?_
  rw [hsame, hhandles]
  exact Nat.lt_succ_self _

end ToneBank

def Likeness.voiced (kind : ToneKind) : Likeness :=
  { Likeness.exact with
    tone := fun t t' => t' = { t with kind }
    tone_turn := by
      rintro t _ on rfl
      rfl }

namespace Board

variable {b b' : Board}

def withToneKind (b : Board) (kind : ToneKind) : Board :=
  { b with tone := { b.tone with kind } }

theorem alike_withToneKind (b : Board) (kind : ToneKind) :
    (Likeness.voiced kind).Alike b (b.withToneKind kind) :=
  ⟨rfl, rfl, rfl, rfl, rfl, rfl⟩

theorem eq_withToneKind_of_alike {kind : ToneKind} (h : (Likeness.voiced kind).Alike b b') :
    b' = b.withToneKind kind := by
  obtain ⟨hcore, hrandom, hfade, htone, hbroken, hshutdown⟩ := h
  have hguise : b'.guise = { b.guise with tone := { b.tone with kind } } :=
    Guise.ext hrandom hfade htone hbroken hshutdown
  rw [hcore, hguise]
  rfl

theorem afterAll_withToneKind (b : Board) (kind : ToneKind) (ops : List Operation) :
    (b.withToneKind kind).answers ops = b.answers ops ∧
      (b.withToneKind kind).afterAll ops = (b.afterAll ops).withToneKind kind := by
  obtain ⟨hboards, hanswers⟩ := (b.alike_withToneKind kind).afterAll ops
  exact ⟨hanswers, eq_withToneKind_of_alike hboards⟩

theorem tone_and_timers :
    (∀ (kind : ToneKind) (start : UInt16) (random : RandomSource) (history : List Command),
      let b := powerOn kind start random
      (b.after history).tone.sounding = true ↔ b.LastTickSounds history) ∧
    (∀ (start : UInt16) (random : RandomSource) (earlier later : List Command),
      let b := powerOn .shared start random
      let made := (({ kind := .shared } : ToneBank).hearAll b earlier).copy 0
      ((made.1.hearAll (b.after earlier) later).tone made.2).heard =
        (b.after (earlier ++ later)).tone.sounding) ∧
    (∀ (b : Board) (t : Timer) (history : List Command),
      (∀ c ∈ history, c.resets = false) →
      (∀ e ∈ b.executions history, ∀ x, e.2 ≠ .transfer t.write x) →
      ((b.after history).cpu.timer t).toNat =
        (b.cpu.timer t).toNat - history.countP Command.ticks) ∧
    ∀ (b : Board) (kind : ToneKind) (ops : List Operation),
      (b.withToneKind kind).answers ops = b.answers ops ∧
        (b.withToneKind kind).afterAll ops = (b.afterAll ops).withToneKind kind :=
  ⟨fun _ _ _ history => sounding_after_iff rfl history, ToneBank.heard_listener,
    fun _ _ _ hresets hw => toNat_timer_after hresets hw, afterAll_withToneKind⟩

theorem tone_and_timers_counting :
    let b := (loaded [0x60, 0x03, 0xF0, 0x18, 0x12, 0x04]).after [.step, .step]
    let history : List Command := [.tick, .step, .key ⟨5, true⟩, .tick, .step]
    ((∀ c ∈ history, c.resets = false) ∧
      b.executions history = [(0x204, .jump 0x204), (0x204, .jump 0x204)]) ∧
      (b.cpu.timer .sound).toNat = 3 ∧ ((b.after history).cpu.timer .sound).toNat = 1 := by
  intro b history
  have hresets : ∀ c ∈ history, c.resets = false := by simp [history, Command.resets]
  have hexecutions : b.executions history = [(0x204, .jump 0x204), (0x204, .jump 0x204)] := by
    decide +kernel
  have hw : ∀ e ∈ b.executions history, ∀ x, e.2 ≠ .transfer Timer.sound.write x := by
    rw [hexecutions]
    simp
  have hthree : (b.cpu.timer .sound).toNat = 3 := by decide +kernel
  refine ⟨⟨hresets, hexecutions⟩, hthree, ?_⟩
  rw [tone_and_timers.2.2.1 b .sound history hresets hw, hthree]
  rfl

end Board

end ChipEight
