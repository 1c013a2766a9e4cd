import VectorDisplay.Platform
import VectorDisplay.Proofs.Drawing.Emission
set_option autoImplicit false

namespace VectorDisplay

/-- The samples that a plan gives from a position on, at the scale of the given capacity. -/
def Plan.emission {α : Type} [Amount α] (plan : Plan α) (speed dark : α) (brightness : Point → α)
    (variants : Point → Variants) (capacity start : Nat) : List Sample :=
  if Amount.finite plan.total && Amount.positive plan.total then
    Batch.stream (Emission.legs (Amount.div (Amount.ofNat capacity) plan.total) speed dark
      brightness variants plan.legs Amount.zero) start
  else []

theorem Plan.legsFrom_cons_eq_ok {α : Type} [Amount α] {distance : Point → Point → Checked α}
    {speed : α} {here : Point} {c : Contour} {rest : List Contour} {legs : List (Leg α)}
    (h : legsFrom distance speed here (c :: rest) = .ok legs) :
    ∃ travel others, legsFrom distance speed (c.leave here) rest = .ok others ∧
      legs = ⟨c, travel⟩ :: others ∧
      ((c.head? = none ∨ Amount.positive speed = false) ∧ travel = Amount.zero ∨
        ∃ first d, c.head? = some first ∧ Amount.positive speed = true ∧
          distance here first = .ok d ∧ travel = Amount.mul d speed) := by
  unfold legsFrom at h
  dsimp only at h
  split at h
  · cases h
  · next travel htravel =>
    split at h
    · cases h
    · next others hothers =>
      cases h
      refine ⟨travel, others, hothers, rfl, ?_⟩
      split at htravel
      · next hhead =>
        cases htravel
        exact .inl ⟨.inl hhead, rfl⟩
      · next first hhead =>
        split at htravel
        · next hspeed =>
          split at htravel
          · cases htravel
          · next d hd =>
            cases htravel
            exact .inr ⟨first, d, hhead, hspeed, hd, rfl⟩
        · next hspeed =>
          cases htravel
          exact .inl ⟨.inr (eq_false_of_ne_true hspeed), rfl⟩

theorem Plan.draw_eq_ok {α : Type} [Amount α] {plan : Plan α} {speed dark : α}
    {brightness : Point → α} {variants : Point → Variants} {buffer : Buffer} {d : Drawing α}
    (h : plan.draw speed dark brightness variants buffer = .ok d) :
    d.buffer.toList = buffer.toList ++
      (plan.emission speed dark brightness variants buffer.remaining buffer.size).take
        buffer.remaining ∧
      d.buffer.capacity = buffer.capacity := by
  simp only [Plan.draw, Budget.ofTotal, scaleFor] at h
  unfold Plan.emission
  split at h
  · next hnone =>
    cases h
    split at hnone
    · cases hnone
    · next hblank => simp [hblank]
  · next budget hsome =>
    split at hsome
    · next hdrawn =>
      cases hsome
      split at h
      · cases h
      · next hlegs =>
        cases h
        have hlaid := laid_drawLegs hlegs
        rw [← List.flatMap_def, Stroke.emission_flatMap] at hlaid
        simpa only [hdrawn, if_true] using ⟨hlaid.toList_eq, hlaid.capacity_eq⟩
    · cases hsome

def Picture.ofPixel (brightness : UInt8) : Picture where
  data := ⟨#[brightness]⟩
  width := 1
  height := 1
  stride := 1
  time := none
  width_pos := by decide
  height_pos := by decide
  width_le_stride := by decide
  covered := Nat.le_refl 1

def Picture.ink (p : Picture) (pt : Point) : Float := Float.ofNat (p.brightness pt.x pt.y).toNat

namespace ContourStyle

def plan [Hypot] (style : ContourStyle) (p : Picture) (contours : List Contour) :
    Checked (Plan Float) :=
  match style.ordering.arrange (style.keep contours) with
  | .error fault => .error fault
  | .ok arranged => Plan.ofContours Point.distance style.speed p.ink arranged

def emission (style : ContourStyle) (p : Picture) (plan : Plan Float) (capacity start : Nat) :
    List Sample :=
  plan.emission style.speed (clampUnit style.dark) p.ink
    (Projection.variants ⟨p.width, p.height, style.dither⟩) capacity start

theorem draw_eq_ok [Hypot] {style : ContourStyle} {p : Picture} {contours : List Contour}
    {buffer after : Buffer} {r : Report} (h : style.draw p contours buffer = .ok (r, after)) :
    ∃ plan d, style.plan p contours = .ok plan ∧
      plan.draw style.speed (clampUnit style.dark) p.ink
        (Projection.variants ⟨p.width, p.height, style.dither⟩) buffer = .ok d ∧
      after = (d.buffer.fill (.ofPlace style.park .off)).2 ∧
      r = { mode := .contour, seen := contours.length, kept := (style.keep contours).length
            drawn := d.drawn, demand := plan.total, scale := d.scale.getD 0.0
            pathSamples := d.buffer.size - buffer.size, fillSamples := d.buffer.remaining
            cut := d.cut } := by
  unfold draw at h
  dsimp only at h
  split at h
  · cases h
  · next arranged harrange =>
    split at h
    · cases h
    · next plan hplan =>
      split at h
      · cases h
      · next d hd =>
        cases h
        refine ⟨plan, d, ?_, hd, rfl, by simp⟩
        simp only [ContourStyle.plan, harrange]
        exact hplan

/-- What a drawn frame holds: what was there, the front of the emission, and the beam at rest. -/
theorem toList_draw [Hypot] {style : ContourStyle} {p : Picture} {contours : List Contour}
    {buffer after : Buffer} {r : Report} (h : style.draw p contours buffer = .ok (r, after)) :
    ∃ plan path, style.plan p contours = .ok plan ∧
      path = (style.emission p plan buffer.remaining buffer.size).take buffer.remaining ∧
      after.toList = buffer.toList ++
        (path ++ List.replicate r.fillSamples (.ofPlace style.park .off)) ∧
      r.pathSamples = path.length := by
  obtain ⟨plan, d, hplan, hd, rfl, rfl⟩ := draw_eq_ok h
  have hlist := (Plan.draw_eq_ok hd).1
  refine ⟨plan, _, hplan, rfl, ?_, ?_⟩
  · rw [Buffer.toList_fill, hlist, List.append_assoc]
    rfl
  · dsimp only
    rw [← Buffer.length_toList d.buffer, hlist, List.length_append, Buffer.length_toList,
      Nat.add_sub_cancel_left]
    rfl

/-- A cut shortens a path and alters nothing else. -/
theorem path_eq_take_emission [Hypot] (style : ContourStyle) (p : Picture) (contours : List Contour)
    (buffer after : Buffer) (r : Report) (h : style.draw p contours buffer = .ok (r, after)) :
    ∃ plan, style.plan p contours = .ok plan ∧
      r.pathSamples = min buffer.remaining
        (style.emission p plan buffer.remaining buffer.size).length ∧
      (after.toList.drop buffer.size).take r.pathSamples =
        (style.emission p plan buffer.remaining buffer.size).take buffer.remaining := by
  obtain ⟨plan, path, hplan, hpath, hlist, hcount⟩ := toList_draw h
  refine ⟨plan, hplan, ?_, ?_⟩
  · rw [hcount, hpath, List.length_take]
  · rw [hlist, List.drop_left' buffer.length_toList, hcount, List.take_left, hpath]

open scoped Platform in
theorem path_eq_take_emission_cut :
    ∃ r after plan,
      ({ speed := 5e-324, minLength := 1 } : ContourStyle).draw (.ofPixel 0) [[⟨1, 0⟩]]
        (.holding #[⟨9, 9, 9⟩] 3) = .ok (r, after) ∧
      r.isCut = true ∧
      (after.toList.drop 1).take r.pathSamples =
        (({ speed := 5e-324, minLength := 1 } : ContourStyle).emission (.ofPixel 0) plan 3 1).take
          3 := by
  have hok : (match ({ speed := 5e-324, minLength := 1 } : ContourStyle).draw (.ofPixel 0)
      [[⟨1, 0⟩]] (.holding #[⟨9, 9, 9⟩] 3) with
      | .ok (r, _) => r.isCut
      | .error _ => false) = true := by decide +kernel
  split at hok
  · next r after h =>
    obtain ⟨plan, -, -, hpath⟩ := path_eq_take_emission _ _ _ _ after r h
    exact ⟨r, after, plan, h, hok, hpath⟩
  · cases hok

end ContourStyle

end VectorDisplay
