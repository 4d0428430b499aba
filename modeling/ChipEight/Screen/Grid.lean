namespace ChipEight

def width : Nat := 64

def height : Nat := 32

structure Grid (α : Type) where
  cells : Vector α (width * height)
  deriving DecidableEq

namespace Grid

variable {α β : Type}

def index (x y : Nat) : Fin (width * height) :=
  ⟨y % height * width + x % width, by simp only [width, height]; omega⟩

def fill (a : α) : Grid α :=
  ⟨Vector.replicate (width * height) a⟩

def get (g : Grid α) (x y : Nat) : α :=
  g.cells[index x y]

def set (g : Grid α) (x y : Nat) (a : α) : Grid α :=
  ⟨g.cells.set (index x y) a⟩

def map (f : α → β) (g : Grid α) : Grid β :=
  ⟨g.cells.map f⟩

theorem index_eq_index_iff {x y x' y' : Nat} :
    index x y = index x' y' ↔ x % width = x' % width ∧ y % height = y' % height := by
  simp only [index, width, height, Fin.mk.injEq]
  omega

theorem get_congr (g : Grid α) {x y x' y' : Nat} (hx : x % width = x' % width)
    (hy : y % height = y' % height) : g.get x y = g.get x' y' := by
  simp only [get, index_eq_index_iff.2 ⟨hx, hy⟩]

@[simp]
theorem get_fill (a : α) (x y : Nat) : (fill a).get x y = a := by
  simp [get, fill]

theorem val_index_eq_iff {x y x' y' : Nat} :
    (index x y).val = (index x' y').val ↔ x % width = x' % width ∧ y % height = y' % height := by
  rw [← Fin.ext_iff, index_eq_index_iff]

theorem get_set (g : Grid α) (x y x' y' : Nat) (a : α) :
    (g.set x y a).get x' y' =
      if x % width = x' % width ∧ y % height = y' % height then a else g.get x' y' := by
  simp only [get, set, Fin.getElem_fin, Vector.getElem_set, val_index_eq_iff]

@[simp]
theorem get_map (f : α → β) (g : Grid α) (x y : Nat) : (g.map f).get x y = f (g.get x y) := by
  simp [get, map]

end Grid

end ChipEight
