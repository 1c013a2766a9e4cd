import VectorDisplay.Platform
import VectorDisplay.Proofs.Drawing.Demand
/-!
Frames drawn whole. Main statement: a frame with something to draw is drawn whole as long as its
total and its scale are both finite, which they are at moderate speeds. A total that is infinite draws
nothing, and at an infinite scale the first demand takes more than there is.
-/

set_option autoImplicit false

namespace VectorDisplay

open Double

section Scales

variable {total : Float} {t : ℚ} {n : ℕ}

theorem scaleFor_eq (htotal : HasValue total t) (hpos : 0 < t) (n : ℕ) :
    scaleFor total n = some (Float.ofNat n / total) := by
  have hpositive : 0.0 < total := (Double.hasValue_zero.lt_iff htotal).2 hpos
  exact if_pos (Bool.and_eq_true_iff.2 ⟨htotal.isFinite, decide_eq_true hpositive⟩)

theorem scaleFor_eq_none (h : ¬ total.isFinite = true) (n : ℕ) : scaleFor total n = none :=
  if_neg fun hdrawn => h (Bool.and_eq_true_iff.1 hdrawn).1

theorem exists_ofNat_value (hn : n < 2 ^ 62) : ∃ k, HasValue (Float.ofNat n) k ∧ k ≤ 2 ^ 62 :=
  (nearest_toModel_ofNat n).exists_le (short_two_pow 62) (two_pow_lt_limit (by norm_num))
    (by exact_mod_cast hn.le)

theorem scale_finite_or_infinite (htotal : HasValue total t) (hpos : 0 < t) (hn : n < 2 ^ 62) :
    (∃ s, HasValue (Float.ofNat n / total) s) ∨ IsInfinite (Float.ofNat n / total) := by
  obtain ⟨k, hk, -⟩ := exists_ofNat_value hn
  obtain ⟨s, -, hscale | ⟨hscale, -⟩⟩ := hk.div htotal hpos
  · exact .inl ⟨s, hscale⟩
  · exact .inr hscale

theorem exists_scale_of_le (htotal : HasValue total t) (hlow : 2 ^ (-900 : ℤ) ≤ t)
    (hn : n < 2 ^ 62) : ∃ s, HasValue (Float.ofNat n / total) s := by
  obtain ⟨k, hk, hk62⟩ := exists_ofNat_value hn
  have hpos : 0 < t := lt_of_lt_of_le (two_zpow_pos _) hlow
  have hquotient : k / t ≤ 2 ^ 962 := by
    rw [div_le_iff₀ hpos]
    calc k ≤ 2 ^ 62 := hk62
      _ = 2 ^ 962 * 2 ^ (-900 : ℤ) := by
        rw [← zpow_natCast, ← zpow_natCast, ← two_zpow_add]
        rfl
      _ ≤ 2 ^ 962 * t := mul_le_mul_of_nonneg_left hlow (by positivity)
  obtain ⟨s, hs, -⟩ := (hk.div htotal hpos).exists_le (short_two_pow 962)
    (two_pow_lt_limit (by norm_num)) hquotient
  exact ⟨s, hs⟩

end Scales

/-- At an infinite scale the first demand takes more than any buffer holds. -/
theorem le_sum_roundAll_infinite {scale carry : Float} (hs : IsInfinite scale)
    {demands : List Float} (hd : ∀ d ∈ demands, HasValue d (value d))
    (hpos : ∃ d ∈ demands, 0 < value d) (hc : HasValue carry 0) :
    2 ^ 64 - 1 ≤ (roundAll scale demands carry).sum := by
  induction demands generalizing carry with
  | nil => simp at hpos
  | cons d rest ih =>
    obtain ⟨hd0, hrest⟩ := List.forall_mem_cons.1 hd
    rw [roundAll, List.sum_cons]
    rcases roundDemand_infinite hd0 hs hc with ⟨hzero, -, hcarry⟩ | ⟨-, hcount⟩
    · have hpos' : ∃ e ∈ rest, 0 < value e := by
        obtain ⟨e, he, hepos⟩ := hpos
        rcases List.mem_cons.1 he with rfl | he
        · exact absurd hzero hepos.ne'
        · exact ⟨e, he, hepos⟩
      exact le_trans (ih hrest hpos' hcarry) (Nat.le_add_left _ _)
    · rw [hcount]
      exact Nat.le_add_right _ _

namespace ContourStyle

section Whole

variable [Hypot] [Hypot.Accurate]
  {style : ContourStyle} {p : Picture} {contours : List Contour} {plan : Plan Float} {t : ℚ}

theorem total_pos (hplan : style.plan p contours = .ok plan) (htotal : HasValue plan.total t)
    (hdemand : style.HasDemand p contours) : 0 < t := by
  obtain ⟨s, hs, hpos, -⟩ := exists_demand hplan htotal hdemand style.dark
  exact lt_of_lt_of_le hpos (hasValue_demand hplan htotal style.dark s hs).2

theorem exists_scale_of_moderate (hplan : style.plan p contours = .ok plan)
    (htotal : HasValue plan.total t) (hdemand : style.HasDemand p contours)
    (hspeed : style.Moderate) {n : ℕ} (hn : n < 2 ^ 62) :
    ∃ s, HasValue (Float.ofNat n / plan.total) s := by
  obtain ⟨s, hs, -, hmoderate⟩ := exists_demand hplan htotal hdemand style.dark
  exact exists_scale_of_le htotal
    (le_trans (hmoderate hspeed) (hasValue_demand hplan htotal style.dark s hs).2) hn

theorem brightness_eq_zero_of_infinite (hplan : style.plan p contours = .ok plan)
    (htotal : HasValue plan.total t) {n : ℕ} (hn : n < 2 ^ 62)
    (hscale : IsInfinite (Float.ofNat n / plan.total)) :
    ∀ c ∈ style.keep contours, ∀ pt ∈ c, p.brightness pt.x pt.y = 0 := by
  intro c hc pt hpt
  by_contra hlit
  obtain ⟨s, hs, hone⟩ := exists_light hplan ⟨c, hc, pt, hpt, hlit⟩ style.dark
  have htotalOne := le_trans hone (hasValue_demand hplan htotal style.dark s hs).2
  obtain ⟨q, hq⟩ := exists_scale_of_le htotal (le_trans least_moderate_le_one htotalOne) hn
  have hfinite := hq.isFinite
  rw [hscale.isFinite_eq] at hfinite
  cases hfinite

theorem draw_whole (hplan : style.plan p contours = .ok plan) (htotal : HasValue plan.total t)
    (hpos : 0 < t) {s : ℚ} {buffer : Buffer}
    (hscale : HasValue (Float.ofNat buffer.remaining / plan.total) s)
    (hroom : buffer.remaining < 2 ^ 62) (hfew : Contour.Few (style.keep contours) buffer.remaining)
    (dark : Float) (variants : Point → Variants) {d : Drawing Float}
    (hd : plan.draw style.speed dark p.ink variants buffer = .ok d) :
    d.cut = none ∧ d.drawn = (style.keep contours).length ∧ d.buffer.remaining ≤ 1 := by
  obtain ⟨arranged, harranged, hlegs, hsum⟩ := plan_eq_ok hplan
  have hperm := DrawingOrder.perm_of_arrange harranged
  have hnear := Plan.sum_counts_near dark hlegs
    (Plan.notNegative_of_legsFrom (fun a b d h => Point.notNegative_of_distance h) hlegs)
    p.hasValue_ink (hsum ▸ htotal) hpos (hsum ▸ hscale) (hfew.of_perm hperm) rfl
  rw [← hsum] at hnear
  have hlimit : wordLimit = 2 ^ 64 := rfl
  obtain ⟨after, hdraw, -, -, hleft⟩ := Plan.exists_draw_whole variants plan
    (scaleFor_eq htotal hpos _) rfl (by omega) hnear.1
  rw [hd] at hdraw
  cases hdraw
  refine ⟨rfl, ?_, by dsimp only; omega⟩
  rw [← hperm.length_eq, ← Plan.contours_of_legsFrom hlegs, List.length_map]

theorem draw_cut (hplan : style.plan p contours = .ok plan) (htotal : HasValue plan.total t)
    (hpos : 0 < t) {buffer : Buffer}
    (hscale : IsInfinite (Float.ofNat buffer.remaining / plan.total))
    (hroom : buffer.remaining < 2 ^ 62) (hdemand : style.HasDemand p contours) (dark : Float)
    (variants : Point → Variants) {d : Drawing Float}
    (hd : plan.draw style.speed dark p.ink variants buffer = .ok d) : d.cut ≠ none := by
  obtain ⟨-, hcut⟩ := Plan.cut_eq_none_iff variants (scaleFor_eq htotal hpos _) hd
  have hdemands := hasValue_demand hplan htotal dark
  obtain ⟨s, hs, hspos, -⟩ := exists_demand hplan htotal hdemand dark
  have hmany := le_sum_roundAll_infinite hscale
    (List.forall_mem_map.2 fun s hs => (hdemands s hs).1) ⟨_, List.mem_map_of_mem hs, hspos⟩
    Amount.hasValue_zero
  rw [Ne, hcut]
  omega

/-- A frame whose points are not left of or above the origin and that has something to draw is drawn
whole, up to at most one place, at a moderate speed and as far as rounding errors allow. At other
speeds that takes a finite total and a finite scale: if the total is infinite nothing is drawn, and if
the scale is, the frame is cut and has no light. -/
theorem drawn_whole (style : ContourStyle) (p : Picture) (contours : List Contour) (buffer : Buffer)
    (hpoints : ∀ c ∈ contours, c.Natural)
    (hroom : Storage.sampleBytes * buffer.capacity ≤ addressLimit)
    (hdemand : style.HasDemand p contours) :
    ∃ r after, style.draw p contours buffer = .ok (r, after) ∧
      (Contour.Few (style.keep contours) buffer.remaining →
        style.Moderate ∨ r.demand.isFinite = true ∧ r.scale.isFinite = true →
          r.cut = none ∧ r.drawn = r.kept ∧ r.fillSamples ≤ 1) ∧
      (r.demand.isFinite = false → r.cut = none ∧ r.drawn = 0 ∧ r.pathSamples = 0) ∧
      (r.demand.isFinite = true → r.scale.isFinite = false →
        r.isCut = true ∧ ∀ c ∈ style.keep contours, ∀ pt ∈ c, p.brightness pt.x pt.y = 0) := by
  have hremaining : buffer.remaining < 2 ^ 62 := by
    have hcapacity : 3 * buffer.capacity ≤ 2 ^ 63 - 1 := hroom
    have hplaces := buffer.size_add_remaining
    omega
  obtain ⟨plan, hplan⟩ := style.exists_plan p hpoints
  obtain ⟨r, after, hdraw⟩ := exists_draw_eq_ok hplan hremaining
  obtain ⟨plan', d, hplan', hd, -, rfl⟩ := draw_eq_ok hdraw
  rw [hplan] at hplan'
  cases hplan'
  refine ⟨_, after, hdraw, ?_⟩
  dsimp only
  by_cases hfinite : plan.total.isFinite = true
  · obtain ⟨t, htotal⟩ := exists_hasValue (notNegative_total hplan) hfinite
    have hpos := total_pos hplan htotal hdemand
    obtain ⟨hscale, -⟩ := Plan.cut_eq_none_iff _ (scaleFor_eq htotal hpos _) hd
    rw [hscale, Option.getD_some]
    rcases scale_finite_or_infinite htotal hpos hremaining with ⟨s, hvalue⟩ | hinfinite
    · exact ⟨fun hfew _ => draw_whole hplan htotal hpos hvalue hremaining hfew _ _ hd,
        by simp [hfinite], by simp [hvalue.isFinite]⟩
    · refine ⟨fun _ hregular => ?_, by simp [hfinite], fun _ _ => ⟨?_, ?_⟩⟩
      · rcases hregular with hspeed | ⟨-, hscaled⟩
        · obtain ⟨s, hs⟩ := exists_scale_of_moderate hplan htotal hdemand hspeed hremaining
          exact absurd hs.isFinite (by simp [hinfinite.isFinite_eq])
        · exact absurd hscaled (by simp [hinfinite.isFinite_eq])
      · exact Option.isSome_iff_ne_none.2
          (draw_cut hplan htotal hpos hinfinite hremaining hdemand _ _ hd)
      · exact brightness_eq_zero_of_infinite hplan htotal hremaining hinfinite
  · have hblank : d = ⟨buffer, none, 0, none⟩ := by
      rw [Plan.draw_blank _ plan (scaleFor_eq_none hfinite _)] at hd
      cases hd
      rfl
    subst hblank
    refine ⟨fun hfew hregular => ?_, fun _ => ⟨rfl, rfl, Nat.sub_self _⟩,
      fun h => absurd h hfinite⟩
    rcases hregular with hspeed | ⟨htotal, -⟩
    · obtain ⟨t, htotal⟩ := exists_total hplan hspeed hfew
      exact absurd htotal.isFinite hfinite
    · exact absurd htotal hfinite

end Whole

open scoped Platform in
theorem drawn_whole_pixel :
    (∃ r after, ({ speed := 1.0, minLength := 1 } : ContourStyle).draw (.ofPixel 64)
        [[⟨0, 0⟩], [⟨1, 0⟩]] (.holding #[⟨9, 9, 9⟩] 3) = .ok (r, after) ∧
      r.cut = none ∧ r.drawn = r.kept ∧ r.fillSamples ≤ 1) ∧
    (∃ r after, ({ speed := 5e-324, minLength := 1 } : ContourStyle).draw (.ofPixel 0) [[⟨1, 0⟩]]
        (.holding #[⟨9, 9, 9⟩] 3) = .ok (r, after) ∧ r.isCut = true) ∧
    ∃ r after, ({ speed := 1e308, minLength := 1 } : ContourStyle).draw (.ofPixel 0) [[⟨2, 0⟩]]
        (.holding #[⟨9, 9, 9⟩] 3) = .ok (r, after) ∧ r.drawn = 0 ∧ r.pathSamples = 0 := by
  refine ⟨?_, ?_, ?_⟩
  · obtain ⟨r, after, hdraw, hwhole, -⟩ := drawn_whole { speed := 1.0, minLength := 1 }
      (.ofPixel 64) [[⟨0, 0⟩], [⟨1, 0⟩]] (.holding #[⟨9, 9, 9⟩] 3) (by decide) (by decide)
      (.inl ⟨[⟨0, 0⟩], by decide, ⟨0, 0⟩, by decide, by decide⟩)
    have hvalue : value 1.0 = 1 := by
      have hunpack : (1.0 : Float).toModel.unpack =
          .finite .positive (2 ^ 52) (-52) (by decide) := rfl
      unfold value
      rw [hunpack]
      norm_num
    have hmoderate : ContourStyle.Moderate { speed := 1.0, minLength := 1 } := by
      intro _
      dsimp only
      rw [hvalue]
      exact ⟨least_moderate_le_one, one_le_pow₀ (by norm_num)⟩
    exact ⟨r, after, hdraw, hwhole ⟨⟨1, by decide, by decide⟩, by decide⟩ (.inl hmoderate)⟩
  · obtain ⟨r, after, hdraw, -, -, hcut⟩ := drawn_whole { speed := 5e-324, minLength := 1 }
      (.ofPixel 0) [[⟨1, 0⟩]] (.holding #[⟨9, 9, 9⟩] 3) (by decide) (by decide)
      (.inr ⟨by decide +kernel, [[⟨1, 0⟩]], rfl, .inl ⟨⟨1, 0⟩, rfl, by decide⟩⟩)
    have hok : (match ({ speed := 5e-324, minLength := 1 } : ContourStyle).draw (.ofPixel 0)
        [[⟨1, 0⟩]] (.holding #[⟨9, 9, 9⟩] 3) with
        | .ok (r, _) => r.demand.isFinite && !r.scale.isFinite
        | .error _ => false) = true := by decide +kernel
    rw [hdraw] at hok
    obtain ⟨hdemand, hscale⟩ := Bool.and_eq_true_iff.1 hok
    exact ⟨r, after, hdraw, (hcut hdemand (by simpa using hscale)).1⟩
  · obtain ⟨r, after, hdraw, -, hblank, -⟩ := drawn_whole { speed := 1e308, minLength := 1 }
      (.ofPixel 0) [[⟨2, 0⟩]] (.holding #[⟨9, 9, 9⟩] 3) (by decide) (by decide)
      (.inr ⟨by decide +kernel, [[⟨2, 0⟩]], rfl, .inl ⟨⟨2, 0⟩, rfl, by decide⟩⟩)
    have hok : (match ({ speed := 1e308, minLength := 1 } : ContourStyle).draw (.ofPixel 0)
        [[⟨2, 0⟩]] (.holding #[⟨9, 9, 9⟩] 3) with
        | .ok (r, _) => !r.demand.isFinite
        | .error _ => false) = true := by decide +kernel
    rw [hdraw] at hok
    exact ⟨r, after, hdraw, (hblank (by simpa using hok)).2⟩

end ContourStyle

end VectorDisplay
