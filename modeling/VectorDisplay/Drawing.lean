import VectorDisplay.Budget
import VectorDisplay.Contour.Order
import VectorDisplay.Number.Fixed
import VectorDisplay.Log
import VectorDisplay.Picture
import VectorDisplay.Projection
import VectorDisplay.Report
import VectorDisplay.Sample.Buffer
/-!
Drawing along contours. A plan lists the contours in drawing order with what each demands: travel
from where the last one ended, at `speed` a pixel, and the brightness of its points. Drawing turns
the plan into strokes in the same order, grants each its samples out of the frame's budget, and
appends them until a batch does not fit: that batch is cut and nothing follows it. What is left of
the buffer is filled at the park position.

Plans and strokes are written for every kind of amount; a frame is drawn in doubles.
-/

set_option autoImplicit false

namespace VectorDisplay

structure Leg (α : Type) where
  contour : Contour
  travel : α

structure Plan (α : Type) where
  legs : List (Leg α)
  total : α

structure Stroke (α : Type) where
  demand : α
  point : Point
  dark : Option α

/-- Samples at one point, all lit or all dark. -/
structure Batch where
  count : Nat
  beam : Beam
  variants : Variants

structure Drawing (α : Type) where
  buffer : Buffer
  scale : Option α
  drawn : Nat
  cut : Option Cut

namespace Batch

def sample (b : Batch) (index : Nat) : Sample := .ofPlace (b.variants.pick index) b.beam

/-- Appends a batch; one that does not fit is cut. -/
def lay (b : Batch) (buffer : Buffer) : Buffer × Option Cut :=
  let (written, buffer) := buffer.append b.count b.sample
  (buffer, if written < b.count then some ⟨b.count, written, b.count - written, 0⟩ else none)

def layAll : List Batch → Buffer → Buffer × Option Cut
  | [], buffer => (buffer, none)
  | b :: rest, buffer =>
    match b.lay buffer with
    | (buffer, some cut) => (buffer, some cut)
    | (buffer, none) => layAll rest buffer

end Batch

section Amounts

variable {α : Type} [Amount α]

def Contour.ink (brightness : Point → α) (c : Contour) : α :=
  c.foldl (fun sum p => Amount.add sum (brightness p)) Amount.zero

namespace Plan

/-- The legs of a plan, from where the beam is. A speed that is not positive makes travel free. -/
def legsFrom (distance : Point → Point → Checked α) (speed : α) :
    Point → List Contour → Checked (List (Leg α))
  | _, [] => .ok []
  | here, c :: rest =>
    let travel : Checked α :=
      match c.head? with
      | none => .ok Amount.zero
      | some first =>
        if Amount.positive speed then
          match distance here first with
          | .error fault => .error fault
          | .ok d => .ok (Amount.mul d speed)
        else .ok Amount.zero
    match travel with
    | .error fault => .error fault
    | .ok travel =>
      match legsFrom distance speed (c.leave here) rest with
      | .error fault => .error fault
      | .ok legs => .ok (⟨c, travel⟩ :: legs)

def sum (brightness : Point → α) (legs : List (Leg α)) : α :=
  legs.foldl (fun total leg =>
    Amount.add total (Amount.add leg.travel (leg.contour.ink brightness))) Amount.zero

def ofContours (distance : Point → Point → Checked α) (speed : α) (brightness : Point → α)
    (contours : List Contour) : Checked (Plan α) :=
  match legsFrom distance speed Point.origin contours with
  | .error fault => .error fault
  | .ok legs => .ok ⟨legs, sum brightness legs⟩

end Plan

def Leg.strokes (speed dark : α) (brightness : Point → α) (leg : Leg α) : List (Stroke α) :=
  let travel : List (Stroke α) :=
    match leg.contour.head? with
    | none => []
    | some first => if Amount.positive speed then [⟨leg.travel, first, some dark⟩] else []
  travel ++ leg.contour.map fun p => ⟨brightness p, p, none⟩

namespace Stroke

def batches (variants : Point → Variants) (s : Stroke α) (count : Nat) : List Batch :=
  match s.dark with
  | none => [⟨count, .on, variants s.point⟩]
  | some dark =>
    let off := min (Amount.units (Amount.whole (Amount.mul (Amount.ofNat count) dark))) count
    [⟨off, .off, variants s.point⟩, ⟨count - off, .on, variants s.point⟩]

def drawAll (variants : Point → Variants) :
    List (Stroke α) → Budget α → Buffer → Checked (Budget α × Buffer × Option Cut)
  | [], budget, buffer => .ok (budget, buffer, none)
  | s :: rest, budget, buffer =>
    match budget.grant s.demand with
    | .error fault => .error fault
    | .ok (count, budget) =>
      match Batch.layAll (s.batches variants count) buffer with
      | (buffer, some cut) => .ok (budget, buffer, some cut)
      | (buffer, none) => drawAll variants rest budget buffer

end Stroke

/-- Draws contours, each given by its strokes, up to the first that does not fit. The number drawn
whole counts on from `drawn`. -/
def drawLegs (variants : Point → Variants) :
    List (List (Stroke α)) → Budget α → Buffer → (drawn : Nat) →
      Checked (Buffer × Nat × Option Cut)
  | [], _, buffer, drawn => .ok (buffer, drawn, none)
  | strokes :: rest, budget, buffer, drawn =>
    match Stroke.drawAll variants strokes budget buffer with
    | .error fault => .error fault
    | .ok (_, buffer, some cut) => .ok (buffer, drawn, some { cut with skipped := rest.length })
    | .ok (budget, buffer, none) => drawLegs variants rest budget buffer (drawn + 1)

def Plan.draw (plan : Plan α) (speed dark : α) (brightness : Point → α)
    (variants : Point → Variants) (buffer : Buffer) : Checked (Drawing α) :=
  match Budget.ofTotal plan.total buffer.remaining with
  | none => .ok ⟨buffer, none, 0, none⟩
  | some budget =>
    match drawLegs variants (plan.legs.map (Leg.strokes speed dark brightness)) budget buffer 0 with
    | .error fault => .error fault
    | .ok (buffer, drawn, cut) => .ok ⟨buffer, some budget.scale, drawn, cut⟩

end Amounts

structure ContourStyle where
  speed : Float := 0.0
  dark : Float := 0.0
  minLength : Nat := 3
  dither : Bool := false
  ordering : DrawingOrder := .traced
  park : Place := (0, 0)

def clampUnit (x : Float) : Float := if x < 0.0 then 0.0 else if 1.0 < x then 1.0 else x

namespace ContourStyle

def keep (style : ContourStyle) (contours : List Contour) : List Contour :=
  contours.filter fun c => max style.minLength 1 ≤ c.length

/-- Draws contours of a picture into the free space of a buffer and fills what is left. -/
def draw [Hypot] (style : ContourStyle) (p : Picture) (contours : List Contour) (buffer : Buffer) :
    Checked (Report × Buffer) :=
  let kept := style.keep contours
  let brightness (pt : Point) : Float := Float.ofNat (p.brightness pt.x pt.y).toNat
  match style.ordering.arrange kept with
  | .error fault => .error fault
  | .ok arranged =>
    match Plan.ofContours Point.distance style.speed brightness arranged with
    | .error fault => .error fault
    | .ok plan =>
      let projection : Projection := ⟨p.width, p.height, style.dither⟩
      match plan.draw style.speed (clampUnit style.dark) brightness projection.variants buffer with
      | .error fault => .error fault
      | .ok drawing =>
        let (fillSamples, filled) := drawing.buffer.fill (.ofPlace style.park .off)
        .ok ({
          mode := .contour
          seen := contours.length
          kept := kept.length
          drawn := drawing.drawn
          demand := plan.total
          scale := drawing.scale.getD 0.0
          pathSamples := drawing.buffer.size - buffer.size
          fillSamples := fillSamples
          cut := drawing.cut }, filled)

def log (r : Report) : Log :=
  let cut : Log :=
    match r.cut with
    | none => []
    | some c =>
      [.warning ("contour frame truncated: " ++ toString c.unwritten ++ " of " ++
        toString c.requested ++ " samples unwritten, " ++ toString c.skipped ++
        " contours skipped")]
  cut ++ [.debug ("contour frame: " ++ toString r.drawn ++ "/" ++ toString r.seen ++
    " contours, demand " ++ fixedPlaces 1 r.demand ++ ", scale " ++ fixedPlaces 4 r.scale ++ ", " ++
    toString r.pathSamples ++ " path + " ++ toString r.fillSamples ++ " fill samples")]

end ContourStyle

end VectorDisplay
