import VectorDisplay.Fault
set_option autoImplicit false

namespace VectorDisplay

/-- The length of the longest side of a right triangle, as the machine finds it from the other two. -/
class Hypot where
  hypot : Float → Float → Float

structure Point where
  x : Int32
  y : Int32
  deriving DecidableEq, Repr

abbrev Contour := List Point

namespace Point

def origin : Point := ⟨0, 0⟩

def ofNat (x y : Nat) : Point := ⟨Int32.ofNat x, Int32.ofNat y⟩

/-- The straight distance of two points whose coordinate differences are 32-bit words. -/
def distance [Hypot] (a b : Point) : Checked Float :=
  match signedWord (a.x.toInt - b.x.toInt) with
  | .error fault => .error fault
  | .ok dx =>
    match signedWord (a.y.toInt - b.y.toInt) with
    | .error fault => .error fault
    | .ok dy => .ok (Hypot.hypot (Float.ofInt dx) (Float.ofInt dy))

end Point

end VectorDisplay
