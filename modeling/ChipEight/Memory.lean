import ChipEight.Fault
import ChipEight.Font

namespace ChipEight

structure Memory where
  bytes : Vector UInt8 memorySize
  deriving DecidableEq

namespace Memory

def blank : Memory :=
  ⟨Vector.replicate memorySize 0⟩

def get (m : Memory) (a : Nat) : UInt8 :=
  m.bytes[a]?.getD 0

def put (m : Memory) (a : Nat) (byte : UInt8) : Memory :=
  ⟨m.bytes.setIfInBounds a byte⟩

def read (m : Memory) (a : Nat) : Except Fault UInt8 :=
  if a < memorySize then .ok (m.get a) else .error (.outOfRange a memorySize)

def write (m : Memory) (a : Nat) (byte : UInt8) : Except Fault Memory :=
  if a < memorySize then .ok (m.put a byte) else .error (.outOfRange a memorySize)

def store (m : Memory) (a : Nat) : List UInt8 → Memory
  | [] => m
  | byte :: rest => (m.put a byte).store (a + 1) rest

def room (a : Nat) : Nat :=
  memorySize - a

def overrun (a : Nat) : Fault :=
  .outOfRange (max a memorySize) memorySize

def writeFrom (m : Memory) (a written : Nat) : List UInt8 → Memory × Except Fault Nat
  | [] => (m, .ok written)
  | byte :: rest =>
    match m.write (a + written) byte with
    | .ok m => m.writeFrom a (written + 1) rest
    | .error _ => (m, .error (.partialWrite (a + written) written))

def writeAll (m : Memory) (a : Nat) (data : List UInt8) : Memory × Except Fault Nat :=
  m.writeFrom a 0 data

def window (m : Memory) (a n : Nat) : List UInt8 :=
  (m.bytes.extract a (a + n)).toList

def word (m : Memory) (a : Nat) : Except Fault Word := do
  let high ← m.read a
  let low ← m.read (a + 1)
  return .ofBytes high low

def lastAddress : Nat := UInt64.size - 1

def range (m : Memory) (a n : Nat) : Except Fault (List UInt8) :=
  if a + n ≤ memorySize then .ok (m.window a n)
  else .error (.outOfRange (min (a + n) lastAddress - 1) memorySize)

def initial : Memory :=
  blank.store Font.location Font.bytes

theorem get_of_le {m : Memory} {a : Nat} (h : memorySize ≤ a) : m.get a = 0 := by
  simp [get, Vector.getElem?_eq_none h]

theorem read_of_lt (m : Memory) {a : Nat} (h : a < memorySize) : m.read a = .ok (m.get a) :=
  if_pos h

theorem read_of_le (m : Memory) {a : Nat} (h : memorySize ≤ a) :
    m.read a = .error (.outOfRange a memorySize) :=
  if_neg (Nat.not_lt.2 h)

theorem write_of_lt (m : Memory) {a : Nat} (h : a < memorySize) (byte : UInt8) :
    m.write a byte = .ok (m.put a byte) :=
  if_pos h

theorem write_of_le (m : Memory) {a : Nat} (h : memorySize ≤ a) (byte : UInt8) :
    m.write a byte = .error (.outOfRange a memorySize) :=
  if_neg (Nat.not_lt.2 h)

theorem ext_get {m m' : Memory} (h : ∀ a, a < memorySize → m.get a = m'.get a) : m = m' := by
  obtain ⟨bytes⟩ := m
  obtain ⟨bytes'⟩ := m'
  congr 1
  apply Vector.ext
  intro i hi
  simpa [get, Vector.getElem?_eq_getElem hi] using h i hi

theorem get_put (m : Memory) (a i : Nat) (byte : UInt8) :
    (m.put a byte).get i = if i = a ∧ i < memorySize then byte else m.get i := by
  rw [get, put, Vector.getElem?_setIfInBounds]
  by_cases ha : a = i
  · subst ha
    by_cases hi : a < memorySize
    · simp [hi]
    · simp [hi, get_of_le (Nat.le_of_not_lt hi)]
  · have : ¬(i = a ∧ i < memorySize) := fun h => ha h.1.symm
    simp [ha, this, get]

theorem get_store (m : Memory) (a i : Nat) (data : List UInt8) :
    (m.store a data).get i =
      if a ≤ i ∧ i < a + data.length ∧ i < memorySize then data.getD (i - a) 0 else m.get i := by
  induction data generalizing m a with
  | nil =>
    have h : ¬(a ≤ i ∧ i < a + ([] : List UInt8).length ∧ i < memorySize) := by
      simp only [List.length_nil]
      omega
    rw [store, if_neg h]
  | cons byte rest ih =>
    rw [store, ih, get_put]
    rcases Nat.lt_trichotomy i a with hi | hi | hi
    · have h₁ : ¬(a + 1 ≤ i ∧ i < a + 1 + rest.length ∧ i < memorySize) := by omega
      have h₂ : ¬(i = a ∧ i < memorySize) := by omega
      have h₃ : ¬(a ≤ i ∧ i < a + (byte :: rest).length ∧ i < memorySize) := by omega
      rw [if_neg h₁, if_neg h₂, if_neg h₃]
    · subst hi
      have h₁ : ¬(i + 1 ≤ i ∧ i < i + 1 + rest.length ∧ i < memorySize) := by omega
      rw [if_neg h₁]
      simp
    · have h₂ : ¬(i = a ∧ i < memorySize) := by omega
      have h₃ : i - a = i - (a + 1) + 1 := by omega
      have h₄ : (a + 1 ≤ i ∧ i < a + 1 + rest.length ∧ i < memorySize) ↔
          (a ≤ i ∧ i < a + (byte :: rest).length ∧ i < memorySize) := by
        simp only [List.length_cons]
        omega
      rw [if_neg h₂, h₃, List.getD_cons_succ]
      simp only [h₄]

theorem store_of_le {m : Memory} {a : Nat} (h : memorySize ≤ a) (data : List UInt8) :
    m.store a data = m := by
  refine ext_get fun i hi => ?_
  rw [get_store, if_neg (by omega)]

theorem writeFrom_cons_of_lt (m : Memory) {a written : Nat} (h : a + written < memorySize)
    (byte : UInt8) (rest : List UInt8) :
    m.writeFrom a written (byte :: rest) =
      (m.put (a + written) byte).writeFrom a (written + 1) rest := by
  rw [writeFrom, m.write_of_lt h]

theorem writeFrom_cons_of_le (m : Memory) {a written : Nat} (h : memorySize ≤ a + written)
    (byte : UInt8) (rest : List UInt8) :
    m.writeFrom a written (byte :: rest) =
      (m, .error (.partialWrite (a + written) written)) := by
  rw [writeFrom, m.write_of_le h]

theorem writeFrom_eq (m : Memory) (a written : Nat) (data : List UInt8) :
    m.writeFrom a written data =
      (m.store (a + written) data,
        if data.length ≤ room (a + written) then .ok (written + data.length)
        else .error
          (.partialWrite (max (a + written) memorySize) (written + room (a + written)))) := by
  induction data generalizing m written with
  | nil => rfl
  | cons byte rest ih =>
    rcases Nat.lt_or_ge (a + written) memorySize with hin | hout
    · have hroom : room (a + written) = room (a + (written + 1)) + 1 := by
        rw [room, room]
        omega
      have hfits : rest.length ≤ room (a + (written + 1)) ↔
          (byte :: rest).length ≤ room (a + written) := by
        rw [hroom, List.length_cons, Nat.add_le_add_iff_right]
      have hcount : written + 1 + rest.length = written + (byte :: rest).length := by
        rw [List.length_cons]
        omega
      have hkept : written + 1 + room (a + (written + 1)) = written + room (a + written) := by
        omega
      have hfirst : max (a + (written + 1)) memorySize = max (a + written) memorySize := by omega
      rw [writeFrom_cons_of_lt m hin, ih]
      simp only [hfits, hcount, hkept, hfirst]
      rfl
    · have hroom : room (a + written) = 0 := Nat.sub_eq_zero_of_le hout
      have hnot : ¬(byte :: rest).length ≤ room (a + written) := by simp [hroom]
      rw [writeFrom_cons_of_le m hout, if_neg hnot, store_of_le hout, hroom, Nat.max_eq_left hout,
        Nat.add_zero]

theorem writeAll_eq (m : Memory) (a : Nat) (data : List UInt8) :
    m.writeAll a data =
      (m.store a data,
        if data.length ≤ room a then .ok data.length
        else .error (.partialWrite (max a memorySize) (room a))) := by
  have hfrom := m.writeFrom_eq a 0 data
  rwa [Nat.add_zero, Nat.zero_add, Nat.zero_add] at hfrom

theorem length_window (m : Memory) (a n : Nat) :
    (m.window a n).length = min (a + n) memorySize - a := by
  simp [window]

theorem getElem_window {m : Memory} {a n i : Nat} (h : i < (m.window a n).length) :
    (m.window a n)[i] = m.get (a + i) := by
  have hi : a + i < memorySize := by
    rw [length_window] at h
    omega
  simp [window, get, Vector.getElem?_eq_getElem hi]

end Memory

end ChipEight
