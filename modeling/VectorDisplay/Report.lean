import VectorDisplay.Fault
set_option autoImplicit false

namespace VectorDisplay

inductive Mode where
  | contour
  | raster
  deriving DecidableEq, Repr

def Mode.name : Mode → String
  | contour => "contour"
  | raster => "raster"

/-- A batch of samples that did not fit. -/
structure Cut where
  requested : Nat
  written : Nat
  unwritten : Nat
  skipped : Nat
  deriving DecidableEq, Repr

structure Report where
  mode : Mode := .contour
  seen : Nat := 0
  kept : Nat := 0
  drawn : Nat := 0
  demand : Float := 0.0
  scale : Float := 0.0
  pathSamples : Nat := 0
  fillSamples : Nat := 0
  cut : Option Cut := none

namespace Report

def isBlank (r : Report) : Bool := r.pathSamples = 0

def isCut (r : Report) : Bool := r.cut.isSome

def written (r : Report) : Checked Nat := word (r.pathSamples + r.fillSamples)

end Report

end VectorDisplay
