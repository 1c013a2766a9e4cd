set_option autoImplicit false

namespace VectorDisplay

/-- The operations that budgeting needs. -/
class Amount (α : Type) where
  ofNat : Nat → α
  add : α → α → α
  sub : α → α → α
  mul : α → α → α
  div : α → α → α
  whole : α → α
  units : α → Nat
  positive : α → Bool
  finite : α → Bool

namespace Amount

variable {α : Type} [Amount α]

def zero : α := ofNat 0

def clip (a : α) : α := if positive a then a else zero

end Amount

/-- From here on every double is an integer. -/
def integralFrom : Float := 9007199254740992.0

instance : Amount Float where
  ofNat := Float.ofNat
  add := (· + ·)
  sub := (· - ·)
  mul := (· * ·)
  div := (· / ·)
  whole a := if a < integralFrom then a.toUInt64.toFloat else a
  units a := a.toUInt64.toNat
  positive a := 0.0 < a
  finite a := a.isFinite

end VectorDisplay
