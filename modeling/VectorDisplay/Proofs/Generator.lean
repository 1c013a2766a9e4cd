import VectorDisplay.Proofs.Drawing.Path
import VectorDisplay.Proofs.Sweep
import VectorDisplay.Settings
set_option autoImplicit false

namespace VectorDisplay

/-- What any number of appends makes of a buffer. -/
inductive Buffer.Appended (b : Buffer) : Buffer → Prop where
  | refl : Appended b b
  | append {c : Buffer} (h : Appended b c) (count : Nat) (f : Nat → Sample) :
      Appended b (c.append count f).2

namespace Buffer.Appended

variable {b c d : Buffer}

theorem trans (hbc : b.Appended c) (hcd : c.Appended d) : b.Appended d := by
  induction hcd with
  | refl => exact hbc
  | append _ count f ih => exact ih.append count f

theorem fill (h : b.Appended c) (s : Sample) : b.Appended (c.fill s).2 :=
  h.append c.remaining fun _ => s

theorem capacity_eq (h : b.Appended c) : c.capacity = b.capacity := by
  induction h with
  | refl => rfl
  | append _ count f ih => exact ih

theorem room_eq (h : b.Appended c) : c.room = b.room := by
  induction h with
  | refl => rfl
  | append _ count f ih => exact ih

end Buffer.Appended

theorem Batch.appended_layAll (batches : List Batch) (buffer : Buffer) :
    buffer.Appended (layAll batches buffer).1 := by
  induction batches generalizing buffer with
  | nil => exact .refl
  | cons b rest ih =>
    have hlay : buffer.Appended (b.lay buffer).1 := .append .refl b.count b.sample
    unfold layAll
    split
    · next after cut heq => rwa [heq] at hlay
    · next after heq =>
      rw [heq] at hlay
      exact hlay.trans (ih after)

section Amounts

variable {α : Type} [Amount α] {variants : Point → Variants} {budget budget' : Budget α}
  {buffer after : Buffer} {cut : Option Cut}

theorem Stroke.appended_drawAll {strokes : List (Stroke α)}
    (h : drawAll variants strokes budget buffer = .ok (budget', after, cut)) :
    buffer.Appended after := by
  induction strokes generalizing budget buffer with
  | nil =>
    cases h
    exact .refl
  | cons s rest ih =>
    unfold drawAll at h
    split at h
    · cases h
    · next count granted hgrant =>
      have hlaid := Batch.appended_layAll (s.batches variants count) buffer
      split at h
      · next laid k hlay =>
        cases h
        rwa [hlay] at hlaid
      · next laid hlay =>
        rw [hlay] at hlaid
        exact hlaid.trans (ih h)

theorem appended_drawLegs {legs : List (List (Stroke α))} {drawn drawn' : Nat}
    (h : drawLegs variants legs budget buffer drawn = .ok (after, drawn', cut)) :
    buffer.Appended after := by
  induction legs generalizing budget buffer drawn with
  | nil =>
    cases h
    exact .refl
  | cons strokes rest ih =>
    unfold drawLegs at h
    split at h
    · cases h
    · next spent laid k hdraw =>
      cases h
      exact Stroke.appended_drawAll hdraw
    · next spent laid hdraw => exact (Stroke.appended_drawAll hdraw).trans (ih h)

theorem Plan.appended_draw {plan : Plan α} {speed dark : α} {brightness : Point → α}
    {d : Drawing α} (h : plan.draw speed dark brightness variants buffer = .ok d) :
    buffer.Appended d.buffer := by
  unfold Plan.draw at h
  split at h
  · cases h
    exact .refl
  · split at h
    · cases h
    · next laid drawn cut hlegs =>
      cases h
      exact appended_drawLegs hlegs

end Amounts

theorem ContourStyle.appended_draw [Hypot] {style : ContourStyle} {p : Picture}
    {contours : List Contour} {before after : Buffer} {r : Report}
    (h : style.draw p contours before = .ok (r, after)) :
    before.Appended after := by
  obtain ⟨_, d, -, hdraw, rfl, -⟩ := draw_eq_ok h
  exact (Plan.appended_draw hdraw).fill _

namespace SweepStyle

variable (s : SweepStyle) (p : Picture)

theorem appended_drawFrom (total capacity left : Nat) (buffer : Buffer) :
    buffer.Appended (s.drawFrom p total capacity left buffer).1 := by
  induction left generalizing buffer with
  | zero => exact .refl
  | succ left ih =>
    have hlay : buffer.Appended
        ((s.batch p total capacity (s.size - (left + 1))).lay buffer).1 := .append .refl _ _
    rw [drawFrom_succ]
    split
    · next after cut heq => rwa [heq] at hlay
    · next after heq =>
      rw [heq] at hlay
      exact hlay.trans (ih after)

variable {s p}

theorem appended_draw {buffer : Buffer} {swept : Swept} (h : s.draw p buffer = .ok swept) :
    buffer.Appended swept.buffer := by
  obtain ⟨drawn, cut, hdrawn, -, -, hbuffer, -⟩ := draw_eq_ok h
  have happended := appended_drawFrom s p (s.total p) buffer.remaining s.size buffer
  rw [hdrawn] at happended
  rw [hbuffer]
  exact happended.fill _

end SweepStyle

/-- A generator that does nothing to a buffer but append to it, whether it succeeds or fails. -/
def Generator.Appends (g : Generator) : Prop :=
  ∀ picture buffer drawn, g.draw picture buffer = .ok drawn → buffer.Appended drawn.buffer

theorem Settings.appends_generator [Hypot] (s : Settings) : s.generator.Appends := by
  intro picture buffer drawn h
  unfold generator at h
  cases hmode : s.mode with
  | contour =>
    simp only [hmode, Generator.contour, Generator.ofContours] at h
    split at h
    · cases h
    · split at h
      · cases h
      · next report after hdraw =>
        cases h
        exact ContourStyle.appended_draw hdraw
  | raster =>
    simp only [hmode, Generator.sweep] at h
    split at h
    · cases h
    · next swept hdraw =>
      cases h
      exact SweepStyle.appended_draw hdraw

end VectorDisplay
