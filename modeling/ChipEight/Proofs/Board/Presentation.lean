import ChipEight.Proofs.Board.Likeness

namespace ChipEight

def Operation.noticeable : Operation → Bool
  | screen (.decay _) => false
  | board _ | setPc _ | screen .clear | screen .reset | screen (.flip ..) | screen (.flipByte ..) =>
    true

def Likeness.inner : Likeness :=
  { Likeness.exact with
    fade := fun _ _ => True
    tone := fun _ _ => True
    flag := fun _ _ => True
    fade_congr := fun _ _ => trivial
    tone_turn := fun _ _ => trivial
    flag_refl := fun _ => trivial }

namespace Board

structure InnerAgrees (b b' : Board) : Prop where
  cpu : b'.cpu = b.cpu
  memory : b'.memory = b.memory
  keypad : b'.keypad = b.keypad
  pixels : b'.screen.pixels = b.screen.pixels

variable {b b' b'' : Board}

theorem InnerAgrees.refl (b : Board) : b.InnerAgrees b :=
  ⟨rfl, rfl, rfl, rfl⟩

theorem InnerAgrees.symm (h : b.InnerAgrees b') : b'.InnerAgrees b :=
  ⟨h.cpu.symm, h.memory.symm, h.keypad.symm, h.pixels.symm⟩

theorem InnerAgrees.trans (h : b.InnerAgrees b') (h' : b'.InnerAgrees b'') : b.InnerAgrees b'' :=
  ⟨h'.cpu.trans h.cpu, h'.memory.trans h.memory, h'.keypad.trans h.keypad,
    h'.pixels.trans h.pixels⟩

theorem innerAgrees_iff_alike : b.InnerAgrees b' ↔ Likeness.inner.Alike b b' := by
  constructor
  · intro h
    refine ⟨?_, congrArg Cpu.random h.cpu, trivial, trivial, trivial, trivial⟩
    have hscreen : b'.screen = { b.screen with fade := b'.screen.fade } :=
      congrArg (Screen.mk · b'.screen.fade) h.pixels
    rw [withGuise, ← h.memory, ← h.keypad, ← h.cpu]
    exact congrArg (fun screen => { b' with screen }) hscreen
  · intro h
    have hrandom : b'.cpu.random = b.cpu.random := h.guise.random
    refine ⟨?_, h.memory, ?_, h.screens.pixels⟩
    · rw [h.cpu, hrandom]
    · rw [h.core]
      rfl

theorem InnerAgrees.afterAll (h : b.InnerAgrees b') (ops : List Operation) :
    (b.afterAll ops).InnerAgrees (b'.afterAll ops) ∧ b'.answers ops = b.answers ops := by
  obtain ⟨hboards, hanswers⟩ := (innerAgrees_iff_alike.1 h).afterAll ops
  exact ⟨innerAgrees_iff_alike.2 hboards, hanswers⟩

theorem operate_unnoticed (b : Board) {op : Operation} (hop : op.noticeable = false) :
    b.InnerAgrees (b.operate op) ∧ b.answer op = none := by
  cases op with
  | board c | setPc pc => cases hop
  | screen c =>
    cases c with
    | decay amount => exact ⟨⟨rfl, rfl, rfl, rfl⟩, rfl⟩
    | _ => cases hop

theorem afterAll_noticeable (b : Board) (ops : List Operation) :
    (b.afterAll (ops.filter Operation.noticeable)).InnerAgrees (b.afterAll ops) ∧
      b.answers ops = b.answers (ops.filter Operation.noticeable) := by
  induction ops generalizing b with
  | nil => exact ⟨.refl b, rfl⟩
  | cons op ops ih =>
    cases hop : op.noticeable with
    | true =>
      obtain ⟨hboards, hanswers⟩ := ih (b.operate op)
      rw [List.filter_cons_of_pos hop]
      exact ⟨hboards, congrArg ((b.answer op).toList ++ ·) hanswers⟩
    | false =>
      obtain ⟨hboards, hanswers⟩ := ih (b.operate op)
      obtain ⟨hnext, hnone⟩ := b.operate_unnoticed hop
      obtain ⟨hlater, hsame⟩ := hnext.afterAll (ops.filter Operation.noticeable)
      rw [List.filter_cons_of_neg (Bool.eq_false_iff.1 hop)]
      refine ⟨hlater.trans hboards, ?_⟩
      rw [answers, hnone, hanswers, hsame]
      rfl

theorem presentation_unnoticed (h : b.InnerAgrees b') {ops ops' : List Operation}
    (hsame : ops'.filter Operation.noticeable = ops.filter Operation.noticeable) :
    (b.afterAll ops).InnerAgrees (b'.afterAll ops') ∧ b'.answers ops' = b.answers ops := by
  obtain ⟨hboard, hanswers⟩ := b.afterAll_noticeable ops
  obtain ⟨hboard', hanswers'⟩ := b'.afterAll_noticeable ops'
  obtain ⟨hcommon, hagree⟩ := h.afterAll (ops.filter Operation.noticeable)
  rw [hsame] at hboard' hanswers'
  refine ⟨hboard.symm.trans (hcommon.trans hboard'), ?_⟩
  rw [hanswers', hagree, hanswers]

theorem presentation_unnoticed_drawing :
    let b := loaded [0xA0, 0x50, 0xD0, 0x05, 0xD0, 0x05, 0x51, 0x21]
    let b' : Board :=
      { b with
        screen := { b.screen with fade := .fill 200 }
        tone := ⟨.shared, true⟩
        broken := true
        shutdown := true }
    let ops : List Operation :=
      [.board .step, .board .step, .board .tick, .board .step, .screen (.decay 9), .board .step]
    let ops' : List Operation :=
      [.screen (.decay 3), .board .step, .board .step, .board .tick, .board .step, .board .step]
    (b.InnerAgrees b' ∧ ops'.filter Operation.noticeable = ops.filter Operation.noticeable) ∧
      (b.afterAll ops).InnerAgrees (b'.afterAll ops') ∧
      b'.answers ops' = [.ok (.notice .nothing), .ok (.notice .draw), .ok (.notice .draw),
        .error (.undecodable 0x5121)] := by
  intro b b' ops ops'
  have hb : b.InnerAgrees b' := ⟨rfl, rfl, rfl, rfl⟩
  have hsame : ops'.filter Operation.noticeable = ops.filter Operation.noticeable := rfl
  obtain ⟨hboards, hanswers⟩ := presentation_unnoticed hb hsame
  refine ⟨⟨hb, hsame⟩, hboards, ?_⟩
  rw [hanswers]
  decide +kernel

end Board

end ChipEight
