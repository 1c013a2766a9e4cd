import VectorDisplay.Fault
import VectorDisplay.Number.Amount
/-!
A frame's budget: demands of any size are turned into whole numbers of samples. One scale, capacity
over total demand, serves the whole frame, and the fraction that a grant leaves over is carried
into the next one, so grants depend on their order. A raster sweep has no carry: `share` floors
every cell's part of the capacity on its own.
-/

set_option autoImplicit false

namespace VectorDisplay

/-- The scale of a frame; none where there is nothing to draw. -/
def scaleFor {α : Type} [Amount α] (total : α) (capacity : Nat) : Option α :=
  if Amount.finite total && Amount.positive total then
    some (Amount.div (Amount.ofNat capacity) total)
  else none

/-- The samples due to a demand, and what is carried into the next. -/
def roundDemand {α : Type} [Amount α] (demand scale carry : α) : Nat × α :=
  let due := Amount.clip (Amount.add (Amount.mul demand scale) carry)
  let whole := Amount.whole due
  (Amount.units whole, Amount.sub due whole)

def share (demand capacity total : Nat) : Nat :=
  if total = 0 then 0 else demand * capacity / total % wordLimit

structure Budget (α : Type) where
  scale : α
  carry : α
  due : α
  granted : Nat

namespace Budget

variable {α : Type} [Amount α]

def ofScale (scale : α) : Budget α := ⟨scale, Amount.zero, Amount.zero, 0⟩

def ofTotal (total : α) (capacity : Nat) : Option (Budget α) :=
  (scaleFor total capacity).map ofScale

/-- What is due beyond what was granted. -/
def drift (b : Budget α) : α := Amount.sub b.due (Amount.ofNat b.granted)

def grant (b : Budget α) (demand : α) : Checked (Nat × Budget α) :=
  let (count, carry) := roundDemand demand b.scale b.carry
  match word (b.granted + count) with
  | .error fault => .error fault
  | .ok granted =>
    .ok (count, ⟨b.scale, carry, Amount.add b.due (Amount.mul (Amount.clip demand) b.scale), granted⟩)

end Budget

end VectorDisplay
