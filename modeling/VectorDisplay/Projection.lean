import VectorDisplay.Contour
import VectorDisplay.Sample
/-!
The projection of picture coordinates onto the device, whose axes have 256 places each and whose y
axis points up. Dithering projects onto an axis of twice the places and folds two fine places onto
one, so that a point between two places alternates between them from sample to sample.
-/

set_option autoImplicit false

namespace VectorDisplay

def deviceMax : Nat := 255

def fineMax : Nat := 2 * deviceMax + 1

/-- The device place of a fine one; an odd one goes up for odd samples. -/
def fold (fine : Nat) (odd : Bool) : Nat :=
  min (fine / 2 + if fine % 2 = 1 ∧ odd then 1 else 0) deviceMax

/-- A coordinate on an axis of the given extent, moved onto the axis and scaled to `0 … range`. -/
def scaleAxis (value : Int32) (extent : UInt32) (range : Nat) : Nat :=
  let extent := max extent.toNat 1
  min value.toNatClampNeg extent * range / extent

/-- The two places between which the samples of a point alternate, for even and for odd samples. -/
structure Variants where
  even : Place
  odd : Place
  deriving DecidableEq, Repr

def Variants.pick (v : Variants) (index : Nat) : Place := if index % 2 = 0 then v.even else v.odd

structure Projection where
  width : UInt32
  height : UInt32
  dither : Bool

namespace Projection

def fine (p : Projection) (pt : Point) : Nat × Nat :=
  (scaleAxis pt.x p.width fineMax, fineMax - scaleAxis pt.y p.height fineMax)

def place (p : Projection) (pt : Point) (odd : Bool) : Place :=
  if p.dither then
    let (x, y) := p.fine pt
    (UInt8.ofNat (fold x odd), UInt8.ofNat (fold y odd))
  else
    (UInt8.ofNat (scaleAxis pt.x p.width deviceMax),
      UInt8.ofNat (deviceMax - scaleAxis pt.y p.height deviceMax))

def variants (p : Projection) (pt : Point) : Variants := ⟨p.place pt false, p.place pt true⟩

end Projection

end VectorDisplay
