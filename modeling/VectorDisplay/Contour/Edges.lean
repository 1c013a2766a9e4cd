import VectorDisplay.Fault
import VectorDisplay.Grid
/-!
Edge detection: blur, gradient, thinning and hysteresis. Pixels beyond the rim of the image repeat
the rim. Thinning leaves the rim itself dark, so a positive lower threshold keeps the growth of an
edge inside the image; with a lower threshold of zero the growth reaches the rim and reads beyond.
-/

set_option autoImplicit false

namespace VectorDisplay

/-- An edge starts at a gradient of at least `high` and grows over gradients of at least `low`. -/
structure Thresholds where
  low : Float32
  high : Float32

namespace Thresholds

def ordered (a b : Float32) : Thresholds := if a ≤ b then ⟨a, b⟩ else ⟨b, a⟩

def standard : Thresholds := ⟨128.0, 130.0⟩

end Thresholds

namespace Edges

def clamped (g : Grid UInt8) (x y : Int) : UInt8 :=
  (g.get? (min x.toNat (g.width - 1)) (min y.toNat (g.height - 1))).getD 0

/-- The weights of the blur, a bell curve over seven cells. -/
def bell : List Float32 :=
  [0x3ced8779, 0x3dd49eb8, 0x3e64878f, 0x3e937826, 0x3e64878f, 0x3dd49eb8, 0x3ced8779].map
    Float32.ofBits

def weigh (cell : Int → UInt8) : UInt8 :=
  let add (acc : Float32) (tap : Float32 × Nat) : Float32 :=
    acc + (cell ((tap.2 : Int) - 3)).toFloat32 * tap.1
  (bell.zipIdx.foldl add 0.0).toUInt8

def blurRows (g : Grid UInt8) : Grid UInt8 :=
  Grid.ofFn g.width g.height fun x y => weigh fun d => clamped g (x + d) y

def blurColumns (g : Grid UInt8) : Grid UInt8 :=
  Grid.ofFn g.width g.height fun x y => weigh fun d => clamped g x (y + d)

structure Gradient where
  across : Int
  down : Int
  length : Float32

def gradientAt (g : Grid UInt8) (x y : Int) : Gradient :=
  let v (dx dy : Int) : Int := (clamped g (x + dx) (y + dy)).toNat
  let across := v 1 (-1) + 2 * v 1 0 + v 1 1 - (v (-1) (-1) + 2 * v (-1) 0 + v (-1) 1)
  let down := v (-1) 1 + 2 * v 0 1 + v 1 1 - (v (-1) (-1) + 2 * v 0 (-1) + v 1 (-1))
  ⟨across, down, (Float32.ofInt (across * across + down * down)).sqrt⟩

def gradients (g : Grid UInt8) : Grid Gradient :=
  Grid.ofFn g.width g.height fun x y => gradientAt g x y

def degrees : Float32 := Float32.ofBits 0x42652ee1

def angle (g : Gradient) : Float32 :=
  let a := Float32.atan2 (Float32.ofInt g.down) (Float32.ofInt g.across) * degrees
  if a < 0.0 then a + 180.0 else a

/-- One of the two opposite neighbours along a gradient, by the eighth of the circle it points to. -/
def along (a : Float32) : Int × Int :=
  if a < 22.5 || !(a < 157.5) then (1, 0)
  else if a < 67.5 then (1, 1)
  else if a < 112.5 then (0, 1)
  else (-1, 1)

def isInner {α : Type} (g : Grid α) (x y : Nat) : Bool :=
  1 ≤ x && x + 1 < g.width && 1 ≤ y && y + 1 < g.height

/-- Keeps the length of a gradient that is no shorter than its neighbours along it. -/
def thin (g : Grid Gradient) : Grid Float32 :=
  Grid.ofFn g.width g.height fun x y =>
    if isInner g x y then
      match g.get? x y with
      | none => 0.0
      | some here =>
        let (dx, dy) := along (angle here)
        let length (sign : Int) : Float32 :=
          match g.at? (x + sign * dx) (y + sign * dy) with
          | some there => there.length
          | none => 0.0
        if here.length < length 1 || here.length < length (-1) then 0.0 else here.length
    else 0.0

def growth : List (Int × Int) := [(1, 0), (1, 1), (0, 1), (-1, -1), (-1, 0), (-1, 1)]

structure Front where
  map : Grid UInt8
  pending : List (Nat × Nat)

def Front.isMarked (f : Front) (x y : Nat) : Bool := (f.map.get? x y).getD 0 ≠ 0

def Front.mark (f : Front) (x y : Nat) : Front := ⟨f.map.set x y 255, (x, y) :: f.pending⟩

def look (strength : Grid Float32) (low : Float32) (x y : Nat) :
    List (Int × Int) → Front → Checked Front
  | [], front => .ok front
  | (dx, dy) :: rest, front =>
    match strength.at? (x + dx) (y + dy) with
    | none => .error .outside
    | some s =>
      let nx := (x + dx : Int).toNat
      let ny := (y + dy : Int).toNat
      look strength low x y rest
        (if low ≤ s && !front.isMarked nx ny then front.mark nx ny else front)

/-- Grows an edge until no cell is pending. Every cell is pending at most once, so as many rounds
as there are cells are enough. -/
def grow (strength : Grid Float32) (low : Float32) : Nat → Front → Checked (Grid UInt8)
  | 0, front => .ok front.map
  | rounds + 1, front =>
    match front.pending with
    | [] => .ok front.map
    | (x, y) :: pending =>
      match look strength low x y growth { front with pending } with
      | .error fault => .error fault
      | .ok front => grow strength low rounds front

def hysteresis (strength : Grid Float32) (t : Thresholds) : Checked (Grid UInt8) :=
  let w := strength.width
  let size := w * strength.height
  let seed (map : Checked (Grid UInt8)) (i : Nat) : Checked (Grid UInt8) :=
    match map with
    | .error fault => .error fault
    | .ok map =>
      let x := i % w
      let y := i / w
      let s := (strength.get? x y).getD 0.0
      let front : Front := ⟨map, []⟩
      if isInner strength x y && t.high ≤ s && !front.isMarked x y then
        grow strength t.low size (front.mark x y)
      else .ok map
  (List.range size).foldl seed (.ok (Grid.ofFn w strength.height fun _ _ => 0))

/-- The edge map of an image: 255 on edges and 0 elsewhere. -/
def detect (t : Thresholds) (g : Grid UInt8) : Checked (Grid UInt8) :=
  if t.low ≤ t.high then hysteresis (thin (gradients (blurColumns (blurRows g)))) t
  else .error .precondition

end Edges

end VectorDisplay
