import VectorDisplay.Generator
import VectorDisplay.Platform
import VectorDisplay.Proofs.Contour.Border
import VectorDisplay.Proofs.Drawing.Travel
import VectorDisplay.Proofs.Drawing.Wholeness
import VectorDisplay.Proofs.Picture.Layout
set_option autoImplicit false

namespace VectorDisplay

open Double

namespace Border

variable {labels : Labels} {number : Int}

theorem follow_ne_nil {start second : Cell} {steps : ℕ} {here : Cell} {came : Direction}
    {visited : List Cell} (h : visited ≠ [] ∨ 0 < steps) :
    (follow number start second steps labels here came visited).2 ≠ [] := by
  induction steps generalizing labels here came visited with
  | zero =>
    rcases h with h | h
    · exact mt List.reverse_eq_nil_iff.1 h
    · exact absurd h (Nat.lt_irrefl 0)
  | succ steps ih =>
    have hvisited : (here :: visited).reverse ≠ [] :=
      mt List.reverse_eq_nil_iff.1 (List.cons_ne_nil _ _)
    unfold follow
    split
    · exact hvisited
    · dsimp only
      split
      · exact hvisited
      · exact ih (.inl (List.cons_ne_nil _ _))

theorem trace_ne_nil (start : Cell) (d : Direction) : (trace labels number start d).2 ≠ [] := by
  unfold trace
  split
  · exact List.cons_ne_nil _ _
  · exact follow_ne_nil (.inr (Nat.succ_pos _))

theorem Scan.ne_nil_visit {s : Scan} (h : ∀ border ∈ s.found, border ≠ []) (c : Cell) :
    ∀ border ∈ (s.visit c).found, border ≠ [] := by
  unfold Scan.visit
  split
  · exact h
  · exact List.forall_mem_cons.2 ⟨trace_ne_nil _ _, h⟩

theorem borders_ne_nil {g : Grid UInt8} {border : List Cell} (h : border ∈ borders g) :
    border ≠ [] := by
  refine List.foldlRecOn (motive := fun s : Scan => ∀ border ∈ s.found, border ≠ []) _ _ ?_
    (fun _ hs c _ => Scan.ne_nil_visit hs c) border (List.mem_reverse.1 h)
  exact fun border hb => absurd hb List.not_mem_nil

end Border

namespace Tracer

variable {threshold : UInt8} {image : Grid UInt8}

theorem get?_clearDim (x y : ℕ) :
    (clearDim threshold image).get? x y =
      (image.get? x y).map fun v => if v ≤ threshold then 0 else v := by
  unfold clearDim
  split
  · next hzero =>
    have hkeep : (fun v : UInt8 => if v ≤ threshold then 0 else v) = id := by
      funext v
      rw [hzero]
      split
      · next hle => exact (UInt8.le_zero_iff.1 hle).symm
      · rfl
    rw [hkeep, Option.map_id, id]
  · exact Grid.get?_map _

theorem exists_of_isForeground {c : Border.Cell}
    (h : Border.IsForeground (clearDim threshold image) c) :
    ∃ v, image.get? c.1 c.2 = some v ∧ threshold < v := by
  obtain ⟨w, hw, hne⟩ := h
  rw [get?_clearDim, Option.map_eq_some_iff] at hw
  obtain ⟨v, hv, rfl⟩ := hw
  refine ⟨v, hv, ?_⟩
  split at hne
  · exact absurd rfl hne
  · next hbright => exact UInt8.not_le.1 hbright

end Tracer

theorem Picture.shows_ofNat {p : Picture} {x y : ℕ} (hx : x < p.width.toNat)
    (hy : y < p.height.toNat) (hwidth : p.width.toNat ≤ 2 ^ 31) (hheight : p.height.toNat ≤ 2 ^ 31) :
    p.Shows (.ofNat x) (.ofNat y) := by
  have hcolumn : (Int32.ofNat x).toInt = x := Int32.toInt_ofNat_of_lt (hx.trans_le hwidth)
  have hrow : (Int32.ofNat y).toInt = y := Int32.toInt_ofNat_of_lt (hy.trans_le hheight)
  unfold Shows
  omega

/-- A point that is a pixel above the threshold. -/
def Picture.Passes (p : Picture) (threshold : UInt8) (pt : Point) : Prop :=
  ∃ x y v, pt = .ofNat x y ∧ p.pixel? x y = some v ∧ threshold < v

theorem Picture.Passes.shown {p : Picture} {threshold : UInt8} {pt : Point}
    (h : p.Passes threshold pt) (hwidth : p.width.toNat ≤ 2 ^ 31)
    (hheight : p.height.toNat ≤ 2 ^ 31) :
    p.Shows pt.x pt.y ∧ threshold < p.brightness pt.x pt.y := by
  obtain ⟨x, y, v, rfl, hpixel, hbright⟩ := h
  obtain ⟨hx, hy⟩ := pixel?_isSome_iff.1 (Option.isSome_of_eq_some hpixel)
  have hbrightness : p.brightness (.ofNat x) (.ofNat y) = v := by
    rw [p.brightness_ofNat (hx.trans_le hwidth) (hy.trans_le hheight), hpixel, Option.getD_some]
  refine ⟨shows_ofNat hx hy hwidth hheight, ?_⟩
  change threshold < p.brightness (.ofNat x) (.ofNat y)
  rw [hbrightness]
  exact hbright

theorem Picture.passes_of_ofBorders {p : Picture} {threshold : UInt8} {c : Contour}
    (hc : c ∈ Contour.ofBorders (Tracer.clearDim threshold p.workingCopy)) :
    c ≠ [] ∧ ∀ pt ∈ c, p.Passes threshold pt := by
  constructor
  · obtain ⟨border, hborder, rfl⟩ := List.mem_map.1 hc
    exact mt List.map_eq_nil_iff.1 (Border.borders_ne_nil hborder)
  · intro pt hpt
    obtain ⟨x, y, rfl, hforeground⟩ := Contour.exists_foreground_of_ofBorders hc hpt
    obtain ⟨v, hv, hbright⟩ := Tracer.exists_of_isForeground hforeground
    rw [get?_workingCopy] at hv
    exact ⟨x, y, v, rfl, hv, hbright⟩

namespace ContourStyle

variable {style : ContourStyle} {p : Picture} {contours : List Contour} {plan : Plan Float}

theorem plain_total [Hypot] (hplan : style.plan p contours = .ok plan)
    (hspeed : ¬ 0.0 < style.speed) :
    Plain plan.total.toModel.unpack := by
  obtain ⟨arranged, -, hlegs, hsum⟩ := plan_eq_ok hplan
  have hzero : Plain (Amount.zero : Float).toModel.unpack := (nearest_toModel_ofNat 0).plain
  have hink (c : Contour) : Plain (c.ink p.ink).toModel.unpack :=
    plain_foldl_add (fun pt _ => (nearest_toModel_ofNat _).plain) hzero
  rw [hsum]
  refine plain_foldl_add (fun leg hleg => (Plain.add ?_ (hink leg.contour)).pack) hzero
  rw [Plan.free_of_legsFrom hlegs leg hleg (.inr (decide_eq_false hspeed))]
  exact hzero

theorem zero_lt_total [Hypot] [Hypot.Accurate] (hplan : style.plan p contours = .ok plan)
    (hspeed : ¬ 0.0 < style.speed)
    (hlit : ∃ c ∈ style.keep contours, ∃ pt ∈ c, p.brightness pt.x pt.y ≠ 0) :
    0.0 < plan.total := by
  have hplain := plain_total hplan hspeed
  by_cases hfinite : plan.total.isFinite = true
  · obtain ⟨t, ht⟩ := exists_hasValue (.inr hplain) hfinite
    exact (Double.hasValue_zero.lt_iff ht).2 (total_pos hplan ht (.inl hlit))
  · exact IsInfinite.zero_lt (hplain.eq_infinity hfinite)

end ContourStyle

/-- Contours traced without edge detection have points, and all of these are pixels above the threshold.
So where travel is free, a drawn frame demands samples as soon as it keeps a contour. -/
theorem Tracer.traced_passes [Hypot] [Hypot.Accurate] (p : Picture) (threshold : UInt8) :
    ∃ image contours, Tracer.borders none threshold p.workingCopy = .ok (image, contours) ∧
      (∀ c ∈ contours, c ≠ [] ∧ ∀ pt ∈ c, p.Passes threshold pt) ∧
      (p.width.toNat ≤ 2 ^ 31 → p.height.toNat ≤ 2 ^ 31 →
        (∀ c ∈ contours, ∀ pt ∈ c, p.Shows pt.x pt.y ∧ threshold < p.brightness pt.x pt.y) ∧
        ∀ (style : ContourStyle) (buffer : Buffer), ¬ 0.0 < style.speed →
          Storage.sampleBytes * buffer.capacity ≤ addressLimit →
          ∃ r after, (Generator.contour style (.borders none threshold)).draw p buffer =
              .ok ⟨.ok r, after, ContourStyle.log r⟩ ∧
            (0 < r.kept → 0.0 < r.demand)) := by
  refine ⟨_, _, rfl, fun c hc => Picture.passes_of_ofBorders hc, fun hwidth hheight => ?_⟩
  have hshown (c : Contour) (hc : c ∈ Contour.ofBorders (clearDim threshold p.workingCopy))
      (pt : Point) (hpt : pt ∈ c) : p.Shows pt.x pt.y ∧ threshold < p.brightness pt.x pt.y :=
    ((Picture.passes_of_ofBorders hc).2 pt hpt).shown hwidth hheight
  refine ⟨hshown, fun style buffer hspeed hroom => ?_⟩
  have hnatural : ∀ c ∈ Contour.ofBorders (clearDim threshold p.workingCopy), c.Natural :=
    fun c hc pt hpt => ⟨(hshown c hc pt hpt).1.1.1, (hshown c hc pt hpt).1.2.1⟩
  obtain ⟨plan, hplan⟩ := style.exists_plan p hnatural
  have hremaining : buffer.remaining < 2 ^ 62 := by
    have hcapacity : 3 * buffer.capacity ≤ 2 ^ 63 - 1 := hroom
    have := buffer.size_add_remaining
    omega
  obtain ⟨r, after, hdraw⟩ := ContourStyle.exists_draw_eq_ok hplan hremaining
  obtain ⟨plan', d, hplan', -, -, hr⟩ := ContourStyle.draw_eq_ok hdraw
  cases hplan.symm.trans hplan'
  refine ⟨r, after, ?_, fun hkept => ?_⟩
  · simp only [Generator.contour, borders, Generator.ofContours, hdraw]
  · rw [hr] at hkept ⊢
    obtain ⟨c, hc⟩ := List.exists_mem_of_length_pos hkept
    have htraced := List.mem_of_mem_filter hc
    obtain ⟨pt, hpt⟩ := List.exists_mem_of_ne_nil c (Picture.passes_of_ofBorders htraced).1
    refine ContourStyle.zero_lt_total hplan hspeed ⟨c, hc, pt, hpt, ?_⟩
    exact UInt8.pos_iff_ne_zero.1 (UInt8.lt_of_le_of_lt UInt8.zero_le (hshown c htraced pt hpt).2)

open scoped Platform in
theorem Tracer.traced_passes_pixel :
    let p : Picture := ⟨⟨#[50, 100, 50]⟩, 3, 1, 3, none, by decide, by decide, by decide, by decide⟩
    (∃ image, Tracer.borders none 50 p.workingCopy = .ok (image, [[⟨1, 0⟩]])) ∧
      p.Shows 1 0 ∧ 50 < p.brightness 1 0 ∧
      ∃ r after, (Generator.contour { minLength := 1 } (.borders none 50)).draw p
          (.holding #[⟨9, 9, 9⟩] 3) = .ok ⟨.ok r, after, ContourStyle.log r⟩ ∧
        r.kept = 1 ∧ 0.0 < r.demand := by
  intro p
  obtain ⟨image, contours, htrace, -, hfits⟩ := traced_passes p 50
  obtain ⟨hshown, hdrawn⟩ := hfits (by decide) (by decide)
  have hcontours : Contour.ofBorders (clearDim 50 p.workingCopy) = [[⟨1, 0⟩]] := by decide +kernel
  obtain rfl : contours = [[⟨1, 0⟩]] := by
    rw [← hcontours]
    exact (congrArg Prod.snd (Except.ok.inj htrace)).symm
  obtain ⟨hshows, hbright⟩ := hshown _ List.mem_cons_self ⟨1, 0⟩ List.mem_cons_self
  obtain ⟨r, after, hdraw, hdemand⟩ := hdrawn { minLength := 1 } (.holding #[⟨9, 9, 9⟩] 3)
    (by decide +kernel) (by decide)
  have hkept : ((Generator.contour { minLength := 1 } (.borders none 50)).draw p
      (.holding #[⟨9, 9, 9⟩] 3)).toOption.bind (fun drawn => drawn.result.toOption.map Report.kept) =
        some 1 := by decide +kernel
  rw [hdraw] at hkept
  have hone : r.kept = 1 := Option.some.inj hkept
  exact ⟨⟨image, htrace⟩, hshows, hbright, r, after, hdraw, hone, hdemand (hone ▸ one_pos)⟩

end VectorDisplay
