import VectorDisplay.Budget
import VectorDisplay.Log
import VectorDisplay.Picture
import VectorDisplay.Projection
import VectorDisplay.Report
import VectorDisplay.Sample.Buffer
/-!
The raster sweep. A grid of cells is visited row by row, from the bottom of the picture to its top,
in alternating directions. A cell rests for a share of the frame in proportion to the cube of its
brightness, counted from one; the first and the last column are always bright, so that the beam
crosses the whole row. Shares are rounded down and the rest of the frame is filled at the park
position. The samples of a cell alternate between two places one fine step apart.
-/

set_option autoImplicit false

namespace VectorDisplay

/-- How a sweep is made. An empty grid counts as one cell wide or high. -/
structure SweepStyle where
  columns : UInt32 := 512
  rows : UInt32 := 256
  park : Place := (0, 0)

namespace Sweep

def edgeBrightness : UInt8 := 0xf0

structure Cell where
  column : Nat
  row : Nat
  brightness : UInt8
  deriving DecidableEq, Repr

def weight (brightness : UInt8) : Nat :=
  let step := brightness.toNat + 1
  step * step * step

end Sweep

namespace SweepStyle

open Sweep

def width (s : SweepStyle) : Nat := max s.columns.toNat 1

def height (s : SweepStyle) : Nat := max s.rows.toNat 1

def size (s : SweepStyle) : Nat := s.width * s.height

/-- The brightness of a cell: that of the nearest pixel, except in the first and last column. -/
def brightness (s : SweepStyle) (p : Picture) (column row : Nat) : UInt8 :=
  if column = 0 ∨ column = s.width - 1 then edgeBrightness
  else
    p.brightness (Int32.ofNat (column * p.width.toNat / s.width))
      (Int32.ofNat (p.height.toNat - 1 - row * p.height.toNat / s.height))

/-- The cell visited at step `k`: odd rows run from right to left. -/
def cell (s : SweepStyle) (p : Picture) (k : Nat) : Cell :=
  let row := k / s.width
  let column := if row % 2 = 1 then s.width - 1 - k % s.width else k % s.width
  ⟨column, row, s.brightness p column row⟩

/-- The two places of a cell. The last column does not step past its own place. -/
def variants (s : SweepStyle) (c : Cell) : Variants :=
  let span := deviceMax + 1
  let x := c.column * 2 * span / s.width
  let y := UInt8.ofNat (min (c.row * span / s.height) deviceMax)
  ⟨(UInt8.ofNat (fold x false), y), (UInt8.ofNat (fold x (c.column + 1 ≠ s.width)), y)⟩

def total (s : SweepStyle) (p : Picture) : Nat :=
  s.size.fold (fun k _ sum => sum + weight (s.cell p k).brightness) 0

def drawFrom (s : SweepStyle) (p : Picture) (total capacity : Nat) :
    (left : Nat) → Buffer → Buffer × Option Cut
  | 0, buffer => (buffer, none)
  | left + 1, buffer =>
    let c := s.cell p (s.size - (left + 1))
    let count := share (weight c.brightness) capacity total
    let variants := s.variants c
    let (written, buffer) := buffer.append count fun i => .ofPlace (variants.pick i) .on
    if written < count then (buffer, some ⟨count, written, count - written, left⟩)
    else drawFrom s p total capacity left buffer

structure Swept where
  report : Report
  buffer : Buffer
  total : Nat

def draw (s : SweepStyle) (p : Picture) (buffer : Buffer) : Checked Swept :=
  match word (s.total p) with
  | .error fault => .error fault
  | .ok total =>
    let capacity := buffer.remaining
    let (drawn, cut) := s.drawFrom p total capacity s.size buffer
    let (fillSamples, filled) := drawn.fill (.ofPlace s.park .off)
    .ok ⟨{
      mode := .raster
      demand := Float.ofNat total
      scale := Float.ofNat capacity / Float.ofNat total
      pathSamples := drawn.size - buffer.size
      fillSamples := fillSamples
      cut := cut }, filled, total⟩

def log (s : SweepStyle) (swept : Swept) : Log :=
  let r := swept.report
  let cut : Log :=
    match r.cut with
    | none => []
    | some c =>
      [.warning ("raster frame truncated: " ++ toString c.unwritten ++ " of " ++
        toString c.requested ++ " samples unwritten, " ++ toString c.skipped ++
        " cells skipped")]
  cut ++ [.debug ("raster frame: " ++ toString s.columns ++ "x" ++ toString s.rows ++
    " cells, demand " ++ toString swept.total ++ ", " ++ toString r.pathSamples ++ " path + " ++
    toString r.fillSamples ++ " fill samples")]

end SweepStyle

end VectorDisplay
