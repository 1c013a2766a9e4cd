import VectorDisplay.Contour
set_option autoImplicit false

namespace VectorDisplay

inductive DrawingOrder where
  | traced
  | nearest
  deriving DecidableEq, Repr

namespace Contour

variable [Hypot]

def unreachable : Float := 1.0 / 0.0

def approach (here : Point) (c : Contour) : Checked Float :=
  match c.head? with
  | none => .ok unreachable
  | some first => here.distance first

/-- The position of the contour with the nearest start; `best` and `bestDistance` describe the
nearest of the contours before position `i`. -/
def nearestFrom (here : Point) : List Contour → (i best : Nat) →
    (bestDistance : Float) → Checked Nat
  | [], _, best, _ => .ok best
  | c :: rest, i, best, bestDistance =>
    match approach here c with
    | .error fault => .error fault
    | .ok d =>
      if d < bestDistance then nearestFrom here rest (i + 1) i d
      else nearestFrom here rest (i + 1) best bestDistance

def nearest (here : Point) (contours : List Contour) : Checked Nat :=
  nearestFrom here contours 0 0 unreachable

def leave (here : Point) (c : Contour) : Point := c.getLast?.getD here

/-- The first `n` contours of the greedy tour that starts at a point. -/
def tour : (n : Nat) → (here : Point) → List Contour → Checked (List Contour)
  | 0, _, _ => .ok []
  | n + 1, here, contours =>
    match nearest here contours with
    | .error fault => .error fault
    | .ok i =>
      match contours[i]? with
      | none => .ok []
      | some next =>
        match tour n (leave here next) (contours.eraseIdx i) with
        | .error fault => .error fault
        | .ok rest => .ok (next :: rest)

end Contour

def DrawingOrder.arrange [Hypot] (o : DrawingOrder) (contours : List Contour) :
    Checked (List Contour) :=
  match o with
  | traced => .ok contours
  | nearest => Contour.tour contours.length Point.origin contours

end VectorDisplay
