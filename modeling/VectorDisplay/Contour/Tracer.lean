import VectorDisplay.Contour.Border
import VectorDisplay.Contour.Edges
set_option autoImplicit false

namespace VectorDisplay

/-- A way to find the contours of an image; the image as it is left comes first. -/
abbrev Tracer := Grid UInt8 → Checked (Grid UInt8 × List Contour)

namespace Tracer

def fixed (contours : List Contour) : Tracer := fun image => .ok (image, contours)

def clearDim (threshold : UInt8) (image : Grid UInt8) : Grid UInt8 :=
  if threshold = 0 then image else image.map fun v => if v ≤ threshold then 0 else v

/-- Borders of what remains after optional edge detection and after dim cells are cleared. -/
def borders (edges : Option Thresholds) (threshold : UInt8) : Tracer := fun image =>
  let traced (image : Grid UInt8) : Grid UInt8 × List Contour :=
    let image := clearDim threshold image
    (image, Contour.ofBorders image)
  match edges with
  | none => .ok (traced image)
  | some t =>
    match Edges.detect t image with
    | .error fault => .error fault
    | .ok image => .ok (traced image)

end Tracer

end VectorDisplay
