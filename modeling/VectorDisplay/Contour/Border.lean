import VectorDisplay.Contour
import VectorDisplay.Grid
/-!
Border following. Cells carry labels: 0 is background, 1 is foreground not yet on a border, and a
border numbers the cells it visits, negatively where it passes their right side. The image is
scanned row by row; a border starts where foreground meets background on the left (outer borders)
or on the right (hole borders), and is followed once around.
-/

set_option autoImplicit false

namespace VectorDisplay

namespace Border

abbrev Direction := Fin 8

def west : Direction := 0
def east : Direction := 4

def back (d : Direction) : Direction := d + 4

def offset (d : Direction) : Int × Int :=
  match d with
  | 0 => (-1, 0)
  | 1 => (-1, -1)
  | 2 => (0, -1)
  | 3 => (1, -1)
  | 4 => (1, 0)
  | 5 => (1, 1)
  | 6 => (0, 1)
  | 7 => (-1, 1)

def forwards (d : Direction) : List Direction := (List.range 8).map fun k => d + Fin.ofNat 8 k

def backwards (d : Direction) : List Direction :=
  (List.range 8).map fun k => d - 1 - Fin.ofNat 8 k

abbrev Labels := Grid Int

abbrev Cell := Nat × Nat

def neighbour? (labels : Labels) (c : Cell) (d : Direction) : Option Cell :=
  let x := (c.1 : Int) + (offset d).1
  let y := (c.2 : Int) + (offset d).2
  match labels.at? x y with
  | none => none
  | some v => if v = 0 then none else some (x.toNat, y.toNat)

/-- What a look around a cell finds: the first foreground neighbour, and whether the direction east
was passed over before it. -/
structure Sight where
  direction : Direction
  cell : Cell
  pastEast : Bool

def look (labels : Labels) (c : Cell) : List Direction → (pastEast : Bool) → Option Sight
  | [], _ => none
  | d :: rest, pastEast =>
    match neighbour? labels c d with
    | some n => some ⟨d, n, pastEast⟩
    | none => look labels c rest (pastEast || d = east)

def mark (labels : Labels) (number : Int) (c : Cell) (pastEast : Bool) : Labels :=
  if c.1 + 1 = labels.width || pastEast then labels.set c.1 c.2 (-number)
  else if labels.get? c.1 c.2 = some 1 then labels.set c.1 c.2 number
  else labels

/-- Follows a border from `here`, which was entered from direction `came`. The border is complete
when it moves from `second` to `start`. A border is in no state twice, and a state is a cell with a
direction. -/
def follow (number : Int) (start second : Cell) :
    Nat → Labels → (here : Cell) → (came : Direction) → (visited : List Cell) → Labels × List Cell
  | 0, labels, _, _, visited => (labels, visited.reverse)
  | steps + 1, labels, here, came, visited =>
    match look labels here (backwards came) false with
    | none => (labels, (here :: visited).reverse)
    | some s =>
      let labels := mark labels number here s.pastEast
      if s.cell = start ∧ here = second then (labels, (here :: visited).reverse)
      else follow number start second steps labels s.cell (back s.direction) (here :: visited)

def trace (labels : Labels) (number : Int) (start : Cell) (d : Direction) : Labels × List Cell :=
  match look labels start (forwards d) false with
  | none => (labels.set start.1 start.2 (-number), [start])
  | some s =>
    follow number start s.cell (8 * (labels.width * labels.height) + 1) labels start s.direction []

def start? (labels : Labels) (c : Cell) : Option Direction :=
  match labels.get? c.1 c.2 with
  | none => none
  | some v =>
    if v = 1 ∧ 0 < c.1 ∧ labels.get? (c.1 - 1) c.2 = some 0 then some west
    else if 0 < v ∧ labels.get? (c.1 + 1) c.2 = some 0 then some east
    else none

/-- A scan in progress: the labels so far, the number of the last border, and the borders found,
latest first. -/
structure Scan where
  labels : Labels
  number : Int
  found : List (List Cell)

def Scan.visit (s : Scan) (c : Cell) : Scan :=
  match start? s.labels c with
  | none => s
  | some d =>
    let number := s.number + 1
    let (labels, border) := trace s.labels number c d
    ⟨labels, number, border :: s.found⟩

def borders (g : Grid UInt8) : List (List Cell) :=
  let labels : Labels := g.map fun v => if v = 0 then 0 else 1
  let cells := (List.range (g.width * g.height)).map fun i => (i % g.width, i / g.width)
  (cells.foldl Scan.visit ⟨labels, 1, []⟩).found.reverse

end Border

def Contour.ofBorders (g : Grid UInt8) : List Contour :=
  (Border.borders g).map fun border => border.map fun c => Point.ofNat c.1 c.2

end VectorDisplay
