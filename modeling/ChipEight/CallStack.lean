import ChipEight.Fault

namespace ChipEight

structure CallStack where
  frames : List UInt16 := []
  depth_le : frames.length ≤ stackSize := by decide
  deriving DecidableEq

namespace CallStack

def depth (s : CallStack) : Nat :=
  s.frames.length

def push (s : CallStack) (a : UInt16) : Except Fault CallStack :=
  if h : s.depth < stackSize then .ok ⟨a :: s.frames, h⟩ else .error .stackFull

def pop (s : CallStack) : Except Fault (UInt16 × CallStack) :=
  match s with
  | ⟨[], _⟩ => .error .stackEmpty
  | ⟨a :: rest, h⟩ => .ok (a, ⟨rest, Nat.le_of_succ_le h⟩)

def addresses (s : CallStack) : List UInt16 :=
  s.frames.reverse

def slots (s : CallStack) : List UInt16 :=
  s.addresses.rightpad stackSize 0

def slot (s : CallStack) (n : Nat) : Except Fault UInt16 :=
  if n < stackSize then .ok (s.addresses.getD n 0) else .error (.noSlot n)

theorem push_eq_ok_iff {s t : CallStack} {a : UInt16} :
    s.push a = .ok t ↔ t.frames = a :: s.frames := by
  unfold push depth
  split
  · next h =>
    constructor
    · rintro ⟨⟩
      rfl
    · intro ht
      obtain ⟨frames, _⟩ := t
      subst ht
      rfl
  · next h =>
    constructor
    · rintro ⟨⟩
    · intro ht
      have := t.depth_le
      rw [ht, List.length_cons] at this
      omega

theorem pop_eq_ok_iff {s t : CallStack} {a : UInt16} :
    s.pop = .ok (a, t) ↔ s.frames = a :: t.frames := by
  obtain ⟨frames, h⟩ := s
  obtain ⟨rest, _⟩ := t
  cases frames <;> simp [pop]

theorem pop_push {s t : CallStack} {a : UInt16} (h : s.push a = .ok t) : t.pop = .ok (a, s) :=
  pop_eq_ok_iff.2 (push_eq_ok_iff.1 h)

end CallStack

end ChipEight
