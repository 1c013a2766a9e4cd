import Mathlib.Data.List.Forall2
import VectorDisplay.Proofs.Drawing.Counts
import VectorDisplay.Proofs.Projection
/-!
One frame drawn with and without dithering. The counts of batches, the cut and the beam do not depend
on places, so the two drawings go in lockstep: buffers whose samples lie beside each other stay so.
Main statement: dithering changes no report and moves no sample by more than one step.
-/

set_option autoImplicit false

namespace VectorDisplay

structure Sample.Beside (s t : Sample) : Prop where
  x_near : Near s.x t.x
  y_near : Near s.y t.y
  intensity_eq : s.intensity = t.intensity

theorem Sample.Beside.refl (s : Sample) : s.Beside s := ⟨.refl _, .refl _, rfl⟩

/-- Buffers of one size whose samples lie beside each other. -/
structure Buffer.Beside (a b : Buffer) : Prop where
  capacity_eq : a.capacity = b.capacity
  room_eq : a.room = b.room
  samples : List.Forall₂ Sample.Beside a.toList b.toList

namespace Buffer.Beside

variable {a b : Buffer}

theorem refl (a : Buffer) : a.Beside a :=
  ⟨rfl, rfl, List.forall₂_same.2 fun s _ => .refl s⟩

theorem size_eq (h : a.Beside b) : a.size = b.size := by
  simpa using h.samples.length_eq

theorem remaining_eq (h : a.Beside b) : a.remaining = b.remaining := by
  have ha := a.size_add_remaining
  have hb := b.size_add_remaining
  have := h.size_eq
  have := h.capacity_eq
  omega

theorem append (h : a.Beside b) {f g : ℕ → Sample} (hfg : ∀ i, (f i).Beside (g i)) (count : ℕ) :
    (a.append count f).2.Beside (b.append count g).2 where
  capacity_eq := h.capacity_eq
  room_eq := h.room_eq
  samples := by
    rw [toList_append, toList_append, h.size_eq, h.remaining_eq]
    refine List.rel_append h.samples ?_
    unfold written
    rw [List.forall₂_map_left_iff, List.forall₂_map_right_iff, List.forall₂_same]
    exact fun i _ => hfg i

theorem fill (h : a.Beside b) (s : Sample) : (a.fill s).2.Beside (b.fill s).2 := by
  have happend := h.append (fun _ => .refl s) b.remaining
  unfold Buffer.fill
  rw [h.remaining_eq]
  exact happend

end Buffer.Beside

structure Batch.Beside (b c : Batch) : Prop where
  count_eq : b.count = c.count
  sample_beside : ∀ i, (b.sample i).Beside (c.sample i)

section Lockstep

variable {a b : Buffer}

theorem Batch.Beside.lay {x y : Batch} (h : x.Beside y) (hab : a.Beside b) :
    (x.lay a).1.Beside (y.lay b).1 ∧ (x.lay a).2 = (y.lay b).2 := by
  constructor
  · unfold Batch.lay
    dsimp only
    rw [h.count_eq]
    exact hab.append h.sample_beside y.count
  · rw [lay_snd, lay_snd, h.count_eq, hab.remaining_eq]

theorem Batch.beside_layAll {xs ys : List Batch} (h : List.Forall₂ Batch.Beside xs ys)
    (hab : a.Beside b) :
    (layAll xs a).1.Beside (layAll ys b).1 ∧ (layAll xs a).2 = (layAll ys b).2 := by
  induction h generalizing a b with
  | nil => exact ⟨hab, rfl⟩
  | @cons x y xs ys hxy _ ih =>
    obtain ⟨hlaid, hcut⟩ := hxy.lay hab
    unfold layAll
    cases hx : x.lay a with
    | mk a' cut =>
      cases hy : y.lay b with
      | mk b' cut' =>
        rw [hx, hy] at hlaid hcut
        obtain rfl : cut = cut' := hcut
        cases cut with
        | some cut => exact ⟨hlaid, rfl⟩
        | none => exact ih hlaid

def Variants.Beside (v w : Variants) : Prop :=
  ∀ i, Near (v.pick i).1 (w.pick i).1 ∧ Near (v.pick i).2 (w.pick i).2

theorem Variants.Beside.batch {v w : Variants} (h : v.Beside w) (count : ℕ) (beam : Beam) :
    (⟨count, beam, v⟩ : Batch).Beside ⟨count, beam, w⟩ :=
  ⟨rfl, fun i => ⟨(h i).1, (h i).2, rfl⟩⟩

theorem Projection.beside_variants (width height : UInt32) (pt : Point) :
    ((⟨width, height, false⟩ : Projection).variants pt).Beside
      ((⟨width, height, true⟩ : Projection).variants pt) := by
  intro i
  unfold Variants.pick
  split
  · exact near_place width height pt false false
  · exact near_place width height pt true true

section Amounts

variable {α : Type} [Amount α] {v w : Point → Variants}

theorem Stroke.beside_batches (hvw : ∀ pt, (v pt).Beside (w pt)) (s : Stroke α) (count : ℕ) :
    List.Forall₂ Batch.Beside (s.batches v count) (s.batches w count) := by
  unfold batches
  cases s.dark with
  | none => exact .cons ((hvw s.point).batch _ _) .nil
  | some dark => exact .cons ((hvw s.point).batch _ _) (.cons ((hvw s.point).batch _ _) .nil)

theorem Stroke.paired_drawAll (hvw : ∀ pt, (v pt).Beside (w pt)) (strokes : List (Stroke α))
    (budget : Budget α) (hab : a.Beside b) :
    Checked.Paired (fun x y => x.1 = y.1 ∧ x.2.1.Beside y.2.1 ∧ x.2.2 = y.2.2)
      (drawAll v strokes budget a) (drawAll w strokes budget b) := by
  induction strokes generalizing budget a b with
  | nil => exact .inl ⟨_, _, rfl, rfl, rfl, hab, rfl⟩
  | cons s rest ih =>
    unfold drawAll
    cases budget.grant s.demand with
    | error fault => exact .inr ⟨fault, rfl, rfl⟩
    | ok granted =>
      obtain ⟨count, budget⟩ := granted
      obtain ⟨hlaid, hcut⟩ := Batch.beside_layAll (s.beside_batches hvw count) hab
      dsimp only
      cases hv : Batch.layAll (s.batches v count) a with
      | mk a' cut =>
        cases hw : Batch.layAll (s.batches w count) b with
        | mk b' cut' =>
          rw [hv, hw] at hlaid hcut
          obtain rfl : cut = cut' := hcut
          cases cut with
          | some cut => exact .inl ⟨_, _, rfl, rfl, rfl, hlaid, rfl⟩
          | none => exact ih budget hlaid

theorem paired_drawLegs (hvw : ∀ pt, (v pt).Beside (w pt)) (legs : List (List (Stroke α)))
    (budget : Budget α) (hab : a.Beside b) (drawn : ℕ) :
    Checked.Paired (fun x y => x.1.Beside y.1 ∧ x.2 = y.2)
      (drawLegs v legs budget a drawn) (drawLegs w legs budget b drawn) := by
  induction legs generalizing budget a b drawn with
  | nil => exact .inl ⟨_, _, rfl, rfl, hab, rfl⟩
  | cons strokes rest ih =>
    unfold drawLegs
    rcases Stroke.paired_drawAll hvw strokes budget hab with
      ⟨⟨budget', a', cut⟩, ⟨_, b', _⟩, hv, hw, rfl, hdrawn, rfl⟩ | ⟨fault, hv, hw⟩
    · rw [hv, hw]
      cases cut with
      | some cut => exact .inl ⟨_, _, rfl, rfl, hdrawn, rfl⟩
      | none => exact ih budget' hdrawn (drawn + 1)
    · rw [hv, hw]
      exact .inr ⟨fault, rfl, rfl⟩

theorem Plan.paired_draw (hvw : ∀ pt, (v pt).Beside (w pt)) (plan : Plan α) (speed dark : α)
    (brightness : Point → α) (hab : a.Beside b) :
    Checked.Paired
      (fun x y => x.buffer.Beside y.buffer ∧ x.scale = y.scale ∧ x.drawn = y.drawn ∧ x.cut = y.cut)
      (plan.draw speed dark brightness v a) (plan.draw speed dark brightness w b) := by
  unfold draw
  rw [hab.remaining_eq]
  cases Budget.ofTotal plan.total b.remaining with
  | none => exact .inl ⟨_, _, rfl, rfl, hab, rfl, rfl, rfl⟩
  | some budget =>
    dsimp only
    rcases paired_drawLegs hvw (plan.legs.map (Leg.strokes speed dark brightness)) budget hab 0 with
      ⟨⟨a', drawn, cut⟩, ⟨b', _⟩, hv, hw, hdrawn, rfl⟩ | ⟨fault, hv, hw⟩
    · rw [hv, hw]
      exact .inl ⟨_, _, rfl, rfl, hdrawn, rfl, rfl, rfl⟩
    · rw [hv, hw]
      exact .inr ⟨fault, rfl, rfl⟩

end Amounts

end Lockstep

/-- Dithering changes no report and moves no sample by more than one step on either axis. -/
theorem ContourStyle.dither_moves_one_step [Hypot] (style : ContourStyle) (p : Picture)
    (contours : List Contour) (before : Buffer) :
    Checked.Paired (fun plain dithered => plain.1 = dithered.1 ∧ plain.2.Beside dithered.2)
      ({ style with dither := false }.draw p contours before)
      ({ style with dither := true }.draw p contours before) := by
  rw [draw_eq, draw_eq]
  dsimp only [keep]
  cases style.ordering.arrange (contours.filter fun c => max style.minLength 1 ≤ c.length) with
  | error fault => exact .inr ⟨fault, rfl, rfl⟩
  | ok arranged =>
    dsimp only [drawInOrder]
    cases Plan.ofContours Point.distance style.speed p.ink arranged with
    | error fault => exact .inr ⟨fault, rfl, rfl⟩
    | ok plan =>
      dsimp only
      rcases plan.paired_draw (Projection.beside_variants p.width p.height) style.speed
          (clampUnit style.dark) p.ink (.refl before) with
        ⟨x, y, hx, hy, hbuffer, hscale, hdrawn, hcut⟩ | ⟨fault, hx, hy⟩
      · rw [hx, hy]
        refine .inl ⟨_, _, rfl, rfl, ?_, hbuffer.fill _⟩
        rw [hscale, hdrawn, hcut, hbuffer.size_eq, hbuffer.remaining_eq]
      · rw [hx, hy]
        exact .inr ⟨fault, rfl, rfl⟩

end VectorDisplay
