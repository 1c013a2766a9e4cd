import VectorDisplay.Generator
set_option autoImplicit false

namespace VectorDisplay

structure Settings where
  output : String := "vector.bin"
  width : UInt32 := 800
  height : UInt32 := 600
  mode : Mode := .contour
  speed : Float := 0.0
  dark : Float := 0.0
  minLength : Nat := 3
  dither : Bool := false
  ordering : DrawingOrder := .traced
  columns : UInt32 := 512
  rows : UInt32 := 256
  edges : Option Thresholds := some Thresholds.standard
  threshold : UInt8 := 0
  park : Place := (0, 0)

namespace Settings

def maxExtent : Nat := 4096

def capacity (s : Settings) : Nat := s.width.toNat * s.height.toNat

def extentFault (name : String) (extent : UInt32) : Option String :=
  if 1 ≤ extent.toNat ∧ extent.toNat ≤ maxExtent then none
  else some (name ++ " must be between 1 and " ++ toString maxExtent)

def speedFault (speed : Float) : Option String :=
  if !speed.isFinite || speed < 0.0 then some "Move speed must be a non-negative number" else none

def darkFault (dark : Float) : Option String :=
  if 0.0 ≤ dark && dark ≤ 1.0 then none else some "Blank fraction must be between 0.0 and 1.0"

def edgesFault : Option Thresholds → Option String
  | none => none
  | some t =>
    if !(t.low.isFinite && t.high.isFinite) || t.low < 0.0 then
      some "Canny thresholds must be non-negative numbers"
    else none

/-- The first reason why the settings are not valid; none if they are. -/
def fault? (s : Settings) : Option String :=
  extentFault "Output width" s.width <|> extentFault "Output height" s.height <|>
    extentFault "Scan width" s.columns <|> extentFault "Scan height" s.rows <|>
    speedFault s.speed <|> darkFault s.dark <|> edgesFault s.edges

def contourStyle (s : Settings) : ContourStyle :=
  { speed := s.speed, dark := s.dark, minLength := s.minLength, dither := s.dither
    ordering := s.ordering, park := s.park }

def sweepStyle (s : Settings) : SweepStyle :=
  { columns := s.columns, rows := s.rows, park := s.park }

def generator [Hypot] (s : Settings) : Generator :=
  match s.mode with
  | .contour => .contour s.contourStyle (.borders s.edges s.threshold)
  | .raster => .sweep s.sweepStyle

end Settings

end VectorDisplay
