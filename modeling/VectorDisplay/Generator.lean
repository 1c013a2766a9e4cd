import VectorDisplay.Contour.Tracer
import VectorDisplay.Drawing
import VectorDisplay.Error
import VectorDisplay.Sweep
set_option autoImplicit false

namespace VectorDisplay

structure Drawn where
  result : Except Error Report
  buffer : Buffer
  log : Log := []

structure Generator where
  mode : Mode
  draw : Picture → Buffer → Checked Drawn

namespace Generator

def ofContours [Hypot] (style : ContourStyle) (p : Picture) (contours : List Contour)
    (buffer : Buffer) :
    Checked Drawn :=
  match style.draw p contours buffer with
  | .error fault => .error fault
  | .ok (report, buffer) => .ok ⟨.ok report, buffer, ContourStyle.log report⟩

/-- Draws the contours that a tracer finds in a copy of the picture. -/
def contour [Hypot] (style : ContourStyle) (tracer : Tracer) : Generator where
  mode := .contour
  draw p buffer :=
    match tracer p.workingCopy with
    | .error fault => .error fault
    | .ok (_, contours) => ofContours style p contours buffer

def sweep (style : SweepStyle) : Generator where
  mode := .raster
  draw p buffer :=
    match style.draw p buffer with
    | .error fault => .error fault
    | .ok swept => .ok ⟨.ok swept.report, swept.buffer, style.log swept⟩

end Generator

end VectorDisplay
