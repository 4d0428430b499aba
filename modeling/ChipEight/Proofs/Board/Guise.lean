import ChipEight.Proofs.Board.History
import ChipEight.Proofs.Board.Periphery

namespace ChipEight

def Instruction.plain : Instruction → Bool
  | clear | random .. | draw .. => false
  | ret | jump _ | call _ | skip _ | load .. | add .. | arithmetic .. | loadIndex _ | jumpOffset _
  | transfer .. => true

def Part.disguises : Part → Bool
  | random | screen | tone | broken | shutdown => true
  | register _ | index | pc | stack | delay | sound | mode | start | memory _ | keypad => false

theorem Part.apart_of_disguises {p : Part} (h : p.disguises = true) :
    p.transferred = false ∧ p.keyed = false := by
  cases p with
  | random | screen | tone | broken | shutdown => exact ⟨rfl, rfl⟩
  | _ => cases h

@[ext]
structure Guise where
  random : RandomSource
  fade : Grid UInt8
  tone : Tone
  broken : Bool
  shutdown : Bool

def Periphery.withGuise (p : Periphery) (g : Guise) : Periphery :=
  { p with
    random := g.random
    screen := { p.screen with fade := g.fade }
    tone := g.tone
    broken := g.broken
    shutdown := g.shutdown }

namespace Board

def guise (b : Board) : Guise where
  random := b.cpu.random
  fade := b.screen.fade
  tone := b.tone
  broken := b.broken
  shutdown := b.shutdown

def withGuise (b : Board) (g : Guise) : Board where
  cpu := { b.cpu with random := g.random }
  memory := b.memory
  screen := { b.screen with fade := g.fade }
  tone := g.tone
  keypad := b.keypad
  broken := g.broken
  shutdown := g.shutdown

variable {b b' : Board} {g : Guise}

theorem guise_withGuise (b : Board) (g : Guise) : (b.withGuise g).guise = g := rfl

theorem randomize_eq (b : Board) (x : RegisterName) (mask : UInt8) :
    b.randomize x mask =
      { b with
        cpu := { b.cpu with random := b.cpu.random.next.2 }.setRegister x
          (b.cpu.random.next.1 &&& mask) } := rfl

theorem guise_eq_of_agreesAt
    (h : ∀ p : Part, p.disguises = true → b.AgreesAt b' p) : b'.guise = b.guise := by
  have hscreen : b'.screen = b.screen := h .screen rfl
  exact Guise.ext (h .random rfl) (congrArg Screen.fade hscreen) (h .tone rfl) (h .broken rfl)
    (h .shutdown rfl)

theorem guise_execute_of_plain {i : Instruction} (h : i.plain = true) :
    (b.execute i).board.guise = b.guise := by
  refine guise_eq_of_agreesAt fun p hp => b.agreesAt_execute i fun hm => ?_
  cases i with
  | clear | random x nn | draw x y n => cases h
  | jump nnn | skip c | jumpOffset nnn => exact hm
  | arithmetic op x y => obtain rfl | ⟨_, rfl⟩ := hm <;> cases hp
  | transfer op x =>
    have ht := Part.transferred_of_mem hm
    rw [(Part.apart_of_disguises hp).1] at ht
    cases ht
  | ret | call nnn | load x nn | add x nn | loadIndex nnn =>
    obtain rfl := hm
    cases hp

theorem agreesAt_random_of_plain {i : Instruction} (h : i.plain = true) :
    b.AgreesAt (b.execute i).board .random :=
  congrArg Guise.random (guise_execute_of_plain h)

end Board

namespace Effect

def withGuise (e : Effect) (g : Guise) : Effect :=
  { e with board := e.board.withGuise g }

theorem withGuise_skip (b : Board) (c : Condition) (g : Guise) :
    (b.withGuise g).skip c = (b.skip c).withGuise g := by
  have hholds : (b.withGuise g).holds c = b.holds c := by cases c <;> rfl
  unfold Board.skip
  rw [hholds]
  split <;> rfl

theorem withGuise_execute {i : Instruction} (hi : i.plain = true) (b : Board) (g : Guise) :
    (b.withGuise g).execute i = (b.execute i).withGuise g := by
  have hinward (h : i.inward = true) : (b.withGuise g).execute i = (b.execute i).withGuise g :=
    Board.execute_mapPeriphery h b (·.withGuise g)
  cases i with
  | clear | random x nn | draw x y n => cases hi
  | skip c => exact withGuise_skip b c g
  | transfer op x =>
    cases op with
    | readDelay | setDelay | setSound => rfl
    | _ => exact hinward rfl
  | _ => exact hinward rfl

end Effect

namespace Reply

variable {α : Type}

def withGuise (r : Reply α) (g : Guise) : Reply α :=
  { r with board := r.board.withGuise g }

theorem withGuise_press (b : Board) (key : Key) (g : Guise) :
    (b.withGuise g).cpu.press key =
      ({ (b.cpu.press key).1 with random := g.random }, (b.cpu.press key).2) := by
  rcases hm : b.cpu.mode with _ | x
  · have hm' : (b.withGuise g).cpu.mode = .running := hm
    rw [Board.press_of_running hm, Board.press_of_running hm']
    rfl
  · have hm' : (b.withGuise g).cpu.mode = .awaitingKey x := hm
    rw [Board.press_of_awaiting hm, Board.press_of_awaiting hm']
    rfl

theorem withGuise_handleKey (b : Board) (e : KeyEvent) (g : Guise) :
    (b.withGuise g).handleKey e = (b.handleKey e).withGuise g := by
  unfold Board.handleKey
  cases Key.ofNat? e.key with
  | error f => rfl
  | ok key =>
    cases e.down with
    | false => rfl
    | true =>
      simp only [if_true, withGuise_press]
      rfl

theorem withGuise_pressOnCpu (b : Board) (key : Nat) (g : Guise) :
    (b.withGuise g).pressOnCpu key = (b.pressOnCpu key).withGuise g := by
  unfold Board.pressOnCpu
  cases Key.ofNat? key with
  | error f => rfl
  | ok key =>
    simp only [withGuise_press]
    rfl

end Reply

end ChipEight
