import VectorDisplay.Platform
import VectorDisplay.Proofs.Contour.Border
import VectorDisplay.Proofs.Contour.Edges
import VectorDisplay.Proofs.Drawing.Granting
import VectorDisplay.Proofs.Drawing.Travel
import VectorDisplay.Proofs.Render
import VectorDisplay.Proofs.Sweep
/-!
What valid settings promise. Main statement: under valid settings, and with memory for the samples, a
picture gives a full frame or ends in a fault, and it is stated exactly when: valid settings bound
every size and every count, but they neither order the thresholds of edge detection nor keep the
lower one from being zero.
-/

set_option autoImplicit false

namespace VectorDisplay

namespace Tracer

theorem width_clearDim (threshold : UInt8) (image : Grid UInt8) :
    (clearDim threshold image).width = image.width := by
  unfold clearDim
  split <;> rfl

theorem height_clearDim (threshold : UInt8) (image : Grid UInt8) :
    (clearDim threshold image).height = image.height := by
  unfold clearDim
  split <;> rfl

end Tracer

namespace Settings

variable {s : Settings} {p : Picture}

/-- What is checked of settings. -/
structure Valid (s : Settings) : Prop where
  width : 1 ≤ s.width.toNat ∧ s.width.toNat ≤ maxExtent
  height : 1 ≤ s.height.toNat ∧ s.height.toNat ≤ maxExtent
  columns : 1 ≤ s.columns.toNat ∧ s.columns.toNat ≤ maxExtent
  rows : 1 ≤ s.rows.toNat ∧ s.rows.toNat ≤ maxExtent
  speed : s.speed.isFinite = true ∧ ¬ s.speed < 0.0
  dark : 0.0 ≤ s.dark ∧ s.dark ≤ 1.0
  edges : ∀ t, s.edges = some t →
    (t.low.isFinite = true ∧ t.high.isFinite = true) ∧ ¬ t.low < 0.0

theorem extentFault_eq_none_iff {name : String} {extent : UInt32} :
    extentFault name extent = none ↔ 1 ≤ extent.toNat ∧ extent.toNat ≤ maxExtent := by
  unfold extentFault
  split
  · next h => simp [h]
  · next h => simp [h]

theorem edgesFault_eq_none_iff {edges : Option Thresholds} :
    edgesFault edges = none ↔ ∀ t, edges = some t →
      (t.low.isFinite = true ∧ t.high.isFinite = true) ∧ ¬ t.low < 0.0 := by
  cases edges with
  | none => simp [edgesFault]
  | some t => simp [edgesFault]

theorem fault?_eq_none_iff : s.fault? = none ↔ s.Valid := by
  have horElse (a : Option String) (b : Unit → Option String) :
      a.orElse b = none ↔ a = none ∧ b () = none := by
    cases a <;> simp
  have hspeed : speedFault s.speed = none ↔ s.speed.isFinite = true ∧ ¬ s.speed < 0.0 := by
    simp [speedFault]
  have hdark : darkFault s.dark = none ↔ 0.0 ≤ s.dark ∧ s.dark ≤ 1.0 := by
    simp [darkFault]
  constructor
  · intro h
    simp only [fault?, HOrElse.hOrElse, OrElse.orElse, horElse, extentFault_eq_none_iff, hspeed,
      hdark, edgesFault_eq_none_iff] at h
    obtain ⟨hwidth, hheight, hcolumns, hrows, hs, hd, hedges⟩ := h
    exact ⟨hwidth, hheight, hcolumns, hrows, hs, hd, hedges⟩
  · intro h
    simp only [fault?, HOrElse.hOrElse, OrElse.orElse, horElse, extentFault_eq_none_iff, hspeed,
      hdark, edgesFault_eq_none_iff]
    exact ⟨h.width, h.height, h.columns, h.rows, h.speed, h.dark, h.edges⟩

/-- Edge detection of a picture ends, if there is any. -/
def EdgesEnd (s : Settings) (p : Picture) : Prop :=
  ∀ t, s.edges = some t → Edges.Ends t p.workingCopy

def TravelMeasured [Hypot] (s : Settings) (p : Picture) : Prop :=
  ∀ image contours, Tracer.borders s.edges s.threshold p.workingCopy = .ok (image, contours) →
    ∃ plan, s.contourStyle.plan p contours = .ok plan

theorem exists_borders (h : s.EdgesEnd p) :
    ∃ image contours, Tracer.borders s.edges s.threshold p.workingCopy = .ok (image, contours) := by
  unfold Tracer.borders
  cases hedges : s.edges with
  | none => exact ⟨_, _, rfl⟩
  | some t =>
    obtain ⟨map, hmap, -⟩ := Edges.exists_detect (h t hedges)
    simp only [hmap]
    exact ⟨_, _, rfl⟩

theorem Valid.borders_eq_ok (hvalid : s.Valid) {image : Grid UInt8} {contours : List Contour}
    (h : Tracer.borders s.edges s.threshold p.workingCopy = .ok (image, contours)) :
    s.EdgesEnd p ∧ image.width = p.width.toNat ∧ image.height = p.height.toNat ∧
      contours = Contour.ofBorders image := by
  unfold Tracer.borders at h
  cases hedges : s.edges with
  | none =>
    rw [hedges] at h
    cases h
    refine ⟨fun t ht => ?_, Tracer.width_clearDim _ _, Tracer.height_clearDim _ _, rfl⟩
    rw [hedges] at ht
    cases ht
  | some t =>
    rw [hedges] at h
    dsimp only at h
    split at h
    · cases h
    · next map hmap =>
      cases h
      obtain ⟨⟨hfinite, -⟩, hbelow⟩ := hvalid.edges t hedges
      have hends := Edges.ends_of_detect hfinite hbelow hmap
      obtain ⟨map', hmap', hwidth, hheight⟩ := Edges.exists_detect hends
      rw [hmap] at hmap'
      cases hmap'
      refine ⟨fun t' ht' => ?_, (Tracer.width_clearDim _ _).trans hwidth,
        (Tracer.height_clearDim _ _).trans hheight, rfl⟩
      rw [hedges] at ht'
      cases ht'
      exact hends

theorem Valid.travelMeasured [Hypot] (hvalid : s.Valid) (hwidth : p.width.toNat ≤ 2 ^ 31)
    (hheight : p.height.toNat ≤ 2 ^ 31) : s.TravelMeasured p := by
  intro image contours h
  obtain ⟨-, himageWidth, himageHeight, rfl⟩ := hvalid.borders_eq_ok h
  refine s.contourStyle.exists_plan p ?_
  intro c hc point hpoint
  obtain ⟨x, y, rfl, v, hv, -⟩ := Contour.exists_foreground_of_ofBorders hc hpoint
  obtain ⟨hx, hy⟩ := Grid.get?_eq_some_imp hv
  exact .ofNat (by omega) (by omega)

/-- A picture that gives a frame: any picture for a sweep, and for contours one whose edges end and
whose travel can be measured. -/
def Drawable [Hypot] (s : Settings) (p : Picture) : Prop :=
  s.mode = .contour → s.EdgesEnd p ∧ s.TravelMeasured p

theorem Valid.exists_draw [Hypot] [Hypot.Accurate] (hvalid : s.Valid) (h : s.Drawable p)
    {buffer : Buffer} (hroom : buffer.remaining ≤ 2 ^ 61) :
    ∃ drawn, s.generator.draw p buffer = .ok drawn := by
  unfold generator
  cases hmode : s.mode with
  | contour =>
    obtain ⟨hedges, htravel⟩ := h hmode
    obtain ⟨image, contours, htraced⟩ := exists_borders hedges
    obtain ⟨plan, hplan⟩ := htravel image contours htraced
    obtain ⟨r, after, hdraw⟩ := ContourStyle.exists_draw_eq_ok hplan
      (lt_of_le_of_lt hroom (by norm_num))
    simp only [Generator.contour, Generator.ofContours, htraced, hdraw]
    exact ⟨_, rfl⟩
  | raster =>
    have hcolumns := hvalid.columns
    have hrows := hvalid.rows
    have hcells : s.sweepStyle.size ≤ maxExtent * maxExtent :=
      Nat.mul_le_mul (max_le hcolumns.2 (by decide)) (max_le hrows.2 (by decide))
    have hsize : s.sweepStyle.size * 2 ^ 24 < wordLimit :=
      lt_of_le_of_lt (Nat.mul_le_mul_right _ hcells) (by decide)
    obtain ⟨swept, hswept⟩ := SweepStyle.exists_draw_eq_ok (p := p) hsize buffer
    simp only [Generator.sweep, hswept]
    exact ⟨_, rfl⟩

theorem Valid.drawable_of_draw [Hypot] (hvalid : s.Valid) {buffer : Buffer} {drawn : Drawn}
    (h : s.generator.draw p buffer = .ok drawn) : s.Drawable p := by
  intro hmode
  simp only [generator, hmode, Generator.contour, Generator.ofContours] at h
  split at h
  · cases h
  · next image contours htraced =>
    split at h
    · cases h
    · next hdraw =>
      obtain ⟨plan, -, hplan, -⟩ := ContourStyle.draw_eq_ok hdraw
      refine ⟨(hvalid.borders_eq_ok htraced).1, ?_⟩
      intro image' contours' htraced'
      rw [htraced] at htraced'
      cases htraced'
      exact ⟨plan, hplan⟩

theorem Valid.capacity_pos (hvalid : s.Valid) : 0 < s.capacity :=
  Nat.mul_pos hvalid.width.1 hvalid.height.1

theorem Valid.exists_fresh [Memory] (hvalid : s.Valid)
    (hgranted : Storage.refusal s.capacity = none) :
    ∃ fresh, Buffer.ofCapacity s.capacity = .ok fresh ∧ fresh.remaining ≤ 2 ^ 61 := by
  have hcapacity : s.capacity ≤ maxExtent * maxExtent :=
    Nat.mul_le_mul hvalid.width.2 hvalid.height.2
  obtain ⟨fresh, hfresh, hremaining⟩ := Buffer.exists_ofCapacity hgranted
  refine ⟨fresh, hfresh, ?_⟩
  rw [hremaining]
  exact le_trans hcapacity (by decide)

section Rendering

variable [Hypot] [Memory]

theorem render_of_refusal (hvalid : s.fault? = none) (p : Picture) {reason : String}
    (hrefused : Storage.refusal s.capacity = some reason) :
    ∃ error, s.render p = .ok ⟨.error error, []⟩ ∧
      error.cause = .resource "sample_buffer" reason := by
  have hpos := (fault?_eq_none_iff.1 hvalid).capacity_pos
  obtain ⟨error, herror, hcause⟩ := Buffer.ofCapacity_eq_error hpos hrefused
  refine ⟨error, ?_, hcause⟩
  unfold render
  simp only [hvalid, herror]

theorem render_of_drawable [Hypot.Accurate] (hvalid : s.fault? = none)
    (hgranted : Storage.refusal s.capacity = none) (hdrawable : s.Drawable p) :
    ∃ frame log, s.render p = .ok ⟨.ok frame, log⟩ ∧
      frame.samples.size = s.width.toNat * s.height.toNat := by
  have hv := fault?_eq_none_iff.1 hvalid
  obtain ⟨fresh, hfresh, hroom⟩ := hv.exists_fresh hgranted
  obtain ⟨drawn, hdraw⟩ := hv.exists_draw hdrawable hroom
  obtain ⟨frame, hrender⟩ := exists_render_eq_ok hvalid hfresh hdraw
  exact ⟨frame, drawn.log, hrender, size_samples_of_render hrender⟩

theorem render_of_not_drawable (hvalid : s.fault? = none)
    (hgranted : Storage.refusal s.capacity = none) (hdrawable : ¬ s.Drawable p) :
    ∃ fault, s.render p = .error fault := by
  have hv := fault?_eq_none_iff.1 hvalid
  obtain ⟨fresh, hfresh, -⟩ := hv.exists_fresh hgranted
  cases hdraw : s.generator.draw p fresh with
  | error fault =>
    refine ⟨fault, ?_⟩
    unfold render
    simp only [hvalid, hfresh, hdraw]
  | ok drawn => exact absurd (hv.drawable_of_draw hdraw) hdrawable

/-- Under valid settings, and with memory for the samples, a drawable picture gives a full frame and any
other ends in a fault. Without memory every picture gives an error about it. -/
theorem render_returns [Hypot.Accurate] (hvalid : s.fault? = none) (p : Picture) :
    (Storage.refusal s.capacity = none →
      (s.Drawable p → ∃ frame log, s.render p = .ok ⟨.ok frame, log⟩ ∧
        frame.samples.size = s.width.toNat * s.height.toNat) ∧
      (¬ s.Drawable p → ∃ fault, s.render p = .error fault)) ∧
    (∀ reason, Storage.refusal s.capacity = some reason →
      ∃ error, s.render p = .ok ⟨.error error, []⟩ ∧
        error.cause = .resource "sample_buffer" reason) ∧
    (p.width.toNat ≤ 2 ^ 31 → p.height.toNat ≤ 2 ^ 31 → s.TravelMeasured p) :=
  ⟨fun hgranted => ⟨render_of_drawable hvalid hgranted, render_of_not_drawable hvalid hgranted⟩,
    fun _ => render_of_refusal hvalid p, (fault?_eq_none_iff.1 hvalid).travelMeasured⟩

end Rendering

open scoped Platform in
theorem render_returns_pixel :
    (∃ frame log, ({ width := 1, height := 1 } : Settings).render (.ofPixel 200) =
      .ok ⟨.ok frame, log⟩ ∧ frame.samples.size = 1) ∧
    ∃ fault, ({ width := 1, height := 1, edges := some ⟨130.0, 128.0⟩ } : Settings).render
      (.ofPixel 200) = .error fault := by
  constructor
  · obtain ⟨hgranted, -, htravel⟩ :=
      render_returns (s := { width := 1, height := 1 }) (by decide +kernel) (.ofPixel 200)
    refine (hgranted (by decide)).1 fun _ => ⟨?_, htravel (by decide) (by decide)⟩
    intro t ht
    cases ht
    exact ⟨by decide +kernel, .inl (by decide +kernel)⟩
  · refine ((render_returns (by decide +kernel) (.ofPixel 200)).1 (by decide)).2 ?_
    intro hdrawable
    have hascending := ((hdrawable rfl).1 _ rfl).1
    revert hascending
    decide +kernel

end Settings

end VectorDisplay
