import VectorDisplay.Platform
import VectorDisplay.Proofs.Drawing.Granting
import VectorDisplay.Proofs.Drawing.Travel
set_option autoImplicit false

namespace VectorDisplay

namespace ContourStyle

theorem draw_eq_error [Hypot] {style : ContourStyle} {p : Picture} {contours : List Contour}
    {fault : Fault} (hplan : style.plan p contours = .error fault) (buffer : Buffer) :
    style.draw p contours buffer = .error fault := by
  rw [draw_eq]
  unfold plan at hplan
  cases harrange : style.ordering.arrange (style.keep contours) with
  | error other =>
    rw [harrange] at hplan
    cases hplan
    rfl
  | ok arranged =>
    rw [harrange] at hplan
    dsimp only at hplan ⊢
    simp only [drawInOrder, hplan]

/-- A frame is drawn if its travel is measured, and otherwise ends in an overflow. Whatever is within
reach of every stop of the beam is measured. -/
theorem draw_returns_iff [Hypot] [Hypot.Accurate] (style : ContourStyle) (p : Picture)
    (contours : List Contour) (buffer : Buffer)
    (hroom : Storage.sampleBytes * buffer.capacity ≤ addressLimit) :
    ((∃ r after, style.draw p contours buffer = .ok (r, after)) ↔ style.Measured contours) ∧
      (¬ style.Measured contours → style.draw p contours buffer = .error .overflow) ∧
      (Contour.Near (style.keep contours) → style.Measured contours) := by
  have hfails (h : ¬ style.Measured contours) :
      style.draw p contours buffer = .error .overflow := draw_eq_error (plan_eq_error p h) buffer
  have hremaining : buffer.remaining < 2 ^ 62 := by
    have hcapacity : 3 * buffer.capacity ≤ 2 ^ 63 - 1 := hroom
    have := buffer.size_add_remaining
    omega
  refine ⟨⟨?_, fun h => ?_⟩, hfails, measured_of_near⟩
  · rintro ⟨r, after, hdraw⟩
    by_contra h
    rw [hfails h] at hdraw
    cases hdraw
  · obtain ⟨plan, hplan⟩ := h.exists_plan p
    exact exists_draw_eq_ok hplan hremaining

open scoped Platform in
theorem draw_returns_iff_pixel :
    (∃ r after, ({ ordering := .nearest, minLength := 1 } : ContourStyle).draw (.ofPixel 64)
      [[⟨-2147483647, 0⟩]] (.holding #[⟨9, 9, 9⟩] 3) = .ok (r, after)) ∧
    ({ ordering := .nearest, minLength := 1 } : ContourStyle).draw (.ofPixel 64)
      [[⟨-2147483648, 0⟩]] (.holding #[⟨9, 9, 9⟩] 3) = .error .overflow := by
  have hnear := draw_returns_iff { ordering := .nearest, minLength := 1 } (.ofPixel 64)
    [[⟨-2147483647, 0⟩]] (.holding #[⟨9, 9, 9⟩] 3) (by decide)
  have hfar := draw_returns_iff { ordering := .nearest, minLength := 1 } (.ofPixel 64)
    [[⟨-2147483648, 0⟩]] (.holding #[⟨9, 9, 9⟩] 3) (by decide)
  refine ⟨hnear.1.2 (hnear.2.2 ?_), hfar.2.1 ?_⟩
  · unfold Contour.Near
    decide
  · intro htoured
    have hreach := htoured 0 (by decide) [] rfl [⟨-2147483648, 0⟩] (by decide) _ rfl
    revert hreach
    decide

end ContourStyle

end VectorDisplay
