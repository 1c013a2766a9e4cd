set_option autoImplicit false

namespace VectorDisplay

structure Grid (α : Type) where
  width : Nat
  height : Nat
  cells : Array α
  size_eq : cells.size = width * height

namespace Grid

variable {α β : Type}

def ofFn (width height : Nat) (f : Nat → Nat → α) : Grid α where
  width
  height
  cells := Array.ofFn fun i : Fin (width * height) => f (i % width) (i / width)
  size_eq := by simp

def get? (g : Grid α) (x y : Nat) : Option α :=
  if x < g.width ∧ y < g.height then g.cells[y * g.width + x]? else none

/-- The cell at a position that may lie left of or above the grid. -/
def at? (g : Grid α) (x y : Int) : Option α :=
  if 0 ≤ x ∧ 0 ≤ y then g.get? x.toNat y.toNat else none

def set (g : Grid α) (x y : Nat) (a : α) : Grid α :=
  if x < g.width ∧ y < g.height then
    { g with
      cells := g.cells.setIfInBounds (y * g.width + x) a
      size_eq := by simp [g.size_eq] }
  else g

def map (f : α → β) (g : Grid α) : Grid β where
  width := g.width
  height := g.height
  cells := g.cells.map f
  size_eq := by simp [g.size_eq]

@[simp] theorem width_set (g : Grid α) (x y : Nat) (a : α) : (g.set x y a).width = g.width := by
  unfold set; split <;> rfl

@[simp] theorem height_set (g : Grid α) (x y : Nat) (a : α) : (g.set x y a).height = g.height := by
  unfold set; split <;> rfl

end Grid

end VectorDisplay
