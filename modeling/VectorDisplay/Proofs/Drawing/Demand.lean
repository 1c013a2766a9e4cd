import VectorDisplay.Proofs.Drawing.Distance
import VectorDisplay.Proofs.Drawing.Drift
set_option autoImplicit false

namespace VectorDisplay

open Double

def Contour.Moves : Point → List Contour → Prop
  | _, [] => False
  | here, c :: rest =>
    (∃ first, c.head? = some first ∧ here ≠ first) ∨ Moves (c.leave here) rest

/-- Something is to be drawn: a point that is not black, or travel that takes samples and leads to
another point. -/
def ContourStyle.HasDemand [Hypot] (style : ContourStyle) (p : Picture) (contours : List Contour) :
    Prop :=
  (∃ c ∈ style.keep contours, ∃ pt ∈ c, p.brightness pt.x pt.y ≠ 0) ∨
    (0.0 < style.speed ∧ ∃ arranged, style.ordering.arrange (style.keep contours) = .ok arranged ∧
      Contour.Moves Point.origin arranged)

/-- Speeds at which travel leaves the range of doubles on neither side. -/
def ContourStyle.Moderate (style : ContourStyle) : Prop :=
  0.0 < style.speed → 2 ^ (-900 : ℤ) ≤ value style.speed ∧ value style.speed ≤ 2 ^ 900

theorem least_moderate_le_one : (2 : ℚ) ^ (-900 : ℤ) ≤ 1 :=
  zpow_le_one_of_nonpos₀ (by norm_num) (by norm_num)

section Demands

variable {speed dark : Float} {brightness : Point → Float} {here : Point} {contours : List Contour}
  {legs : List (Leg Float)}

theorem Plan.exists_travel [Hypot] (hspeed : 0.0 < speed)
    (h : legsFrom Point.distance speed here contours = .ok legs)
    (hmoves : Contour.Moves here contours) :
    ∃ leg ∈ legs, ∃ a b d, leg.contour.head? = some b ∧ a ≠ b ∧ a.distance b = .ok d ∧
      leg.travel = d * speed := by
  induction contours generalizing here legs with
  | nil => exact hmoves.elim
  | cons c rest ih =>
    obtain ⟨travel, others, hothers, rfl, htravel⟩ := legsFrom_cons_eq_ok h
    rcases hmoves with ⟨first, hhead, hne⟩ | hmoves
    · rcases htravel with ⟨hfree, -⟩ | ⟨first', d, hhead', -, hd, rfl⟩
      · have hpositive : Amount.positive speed = true := decide_eq_true hspeed
        simp [hhead, hpositive] at hfree
      · rw [hhead] at hhead'
        cases hhead'
        exact ⟨_, List.mem_cons_self, here, first, d, hhead, hne, hd, rfl⟩
    · obtain ⟨leg, hleg, hrest⟩ := ih hothers hmoves
      exact ⟨leg, List.mem_cons_of_mem _ hleg, hrest⟩

theorem speed_le_travel [Hypot] [Hypot.Accurate] {a b : Point} {d : Float} {q : ℚ}
    (hspeed : 0.0 < speed) (hd : a.distance b = .ok d) (hne : a ≠ b) (h : HasValue (d * speed) q) :
    0 < value speed ∧ value speed ≤ q := by
  obtain ⟨r, hr, -, hone⟩ := Point.hasValue_distance hd
  obtain ⟨-, s, hs⟩ := h.of_mul hr.notNegative (.of_zero_lt hspeed)
  have hpos : 0 < s := (Double.hasValue_zero.lt_iff hs).1 hspeed
  rw [hs.value_eq]
  exact ⟨hpos, ((hr.mul hs).rounds h).ge_of_le (Measures.short hs)
    (le_mul_of_one_le_left hpos.le (hone hne))⟩

theorem Plan.exists_travel_le [Hypot] [Hypot.Accurate]
    (hspeed : 0.0 < speed → HasValue speed (value speed) ∧ value speed ≤ 2 ^ 900)
    (h : legsFrom Point.distance speed here contours = .ok legs) :
    ∀ leg ∈ legs, ∃ q, HasValue leg.travel q ∧ q ≤ 2 ^ 933 := by
  induction contours generalizing here legs with
  | nil =>
    cases h
    simp
  | cons c rest ih =>
    obtain ⟨travel, others, hothers, rfl, htravel⟩ := legsFrom_cons_eq_ok h
    have hfirst : ∃ q, HasValue travel q ∧ q ≤ 2 ^ 933 := by
      rcases htravel with ⟨-, rfl⟩ | ⟨first, d, -, hpositive, hd, rfl⟩
      · exact ⟨0, Amount.hasValue_zero, by positivity⟩
      · obtain ⟨hs, hsle⟩ := hspeed (of_decide_eq_true hpositive)
        obtain ⟨r, hr, hrle, -⟩ := Point.hasValue_distance hd
        refine (hr.mul hs).exists_le (short_two_pow 933) (two_pow_lt_limit (by norm_num)) ?_
        calc r * value speed ≤ 2 ^ 33 * 2 ^ 900 :=
              mul_le_mul hrle hsle hs.nonneg (by positivity)
          _ = 2 ^ 933 := (pow_add 2 33 900).symm
    exact List.forall_mem_cons.2 ⟨hfirst, ih hothers⟩

theorem Contour.exists_ink_le {c : Contour} (hlength : c.length ≤ 2 ^ 48)
    (hbrightness : ∀ p, ∃ q, HasValue (brightness p) q ∧ q ≤ 2 ^ 8) :
    ∃ q, HasValue (c.ink brightness) q ∧ q ≤ 2 ^ 56 := by
  obtain ⟨q, hq, hle⟩ := HasValue.exists_foldl_le (l := c) (j := 0) (k := 8)
    Amount.hasValue_zero (by simp) (fun p _ => hbrightness p) (by omega) (by norm_num)
  have hcount : ((0 + c.length : ℕ) : ℚ) ≤ 2 ^ 48 := by
    rw [zero_add]
    exact_mod_cast hlength
  refine ⟨q, hq, ?_⟩
  calc q ≤ ((0 + c.length : ℕ) : ℚ) * 2 ^ 8 := hle
    _ ≤ 2 ^ 48 * 2 ^ 8 := mul_le_mul_of_nonneg_right hcount (by norm_num)
    _ = 2 ^ 56 := (pow_add 2 48 8).symm

theorem Plan.exists_total {capacity : ℕ} (hcontours : legs.map Leg.contour = contours)
    (htravel : ∀ leg ∈ legs, ∃ q, HasValue leg.travel q ∧ q ≤ 2 ^ 933)
    (hbrightness : ∀ p, ∃ q, HasValue (brightness p) q ∧ q ≤ 2 ^ 8)
    (hfew : Contour.Few contours capacity) : ∃ t, HasValue (sum brightness legs) t := by
  obtain ⟨⟨longest, hlongest, hroundings⟩, -⟩ := hfew
  have hlength : legs.length = contours.length := by rw [← hcontours, List.length_map]
  have hsize : longest + 1 + contours.length ≤ 2 ^ 48 :=
    le_trans (Nat.le_mul_of_pos_right _ (Nat.succ_pos capacity)) hroundings
  have hlegs : ∀ leg ∈ legs, ∃ q,
      HasValue (leg.travel + leg.contour.ink brightness) q ∧ q ≤ 2 ^ 934 := by
    intro leg hleg
    have hshort : leg.contour.length ≤ longest :=
      hlongest _ (hcontours ▸ List.mem_map_of_mem hleg)
    obtain ⟨t, ht, htle⟩ := htravel leg hleg
    obtain ⟨i, hi, hile⟩ := Contour.exists_ink_le (c := leg.contour) (by omega) hbrightness
    have hink : i ≤ 2 ^ 933 := le_trans hile (pow_le_pow_right₀ (by norm_num) (by norm_num))
    refine (ht.add hi).exists_le (short_two_pow 934) (two_pow_lt_limit (by norm_num)) ?_
    calc t + i ≤ 2 ^ 933 + 2 ^ 933 := add_le_add htle hink
      _ = 2 ^ 934 := by rw [← mul_two, ← pow_succ]
  obtain ⟨t, ht, -⟩ := HasValue.exists_foldl_le (l := legs) (j := 0) (k := 934)
    Amount.hasValue_zero (by simp) hlegs (by omega) (by norm_num)
  exact ⟨t, ht⟩

variable (dark brightness) in
theorem Leg.travel_mem_strokes {leg : Leg Float} {first : Point} (hspeed : 0.0 < speed)
    (hhead : leg.contour.head? = some first) :
    ⟨leg.travel, first, some dark⟩ ∈ leg.strokes speed dark brightness := by
  have hpositive : Amount.positive speed = true := decide_eq_true hspeed
  unfold strokes
  simp [hhead, hpositive]

end Demands

namespace Picture

variable (p : Picture) (pt : Point)

theorem hasValue_ink_toNat : HasValue (p.ink pt) (p.brightness pt.x pt.y).toNat :=
  hasValue_ofNat (lt_trans (UInt8.toNat_lt _) (by norm_num))

theorem value_ink : value (p.ink pt) = (p.brightness pt.x pt.y).toNat :=
  (p.hasValue_ink_toNat pt).value_eq

theorem hasValue_ink : HasValue (p.ink pt) (value (p.ink pt)) := by
  rw [value_ink]
  exact p.hasValue_ink_toNat pt

end Picture

namespace ContourStyle

variable [Hypot] {style : ContourStyle} {p : Picture} {contours : List Contour} {plan : Plan Float}
  {t : ℚ}

theorem plan_eq_ok (h : style.plan p contours = .ok plan) :
    ∃ arranged, style.ordering.arrange (style.keep contours) = .ok arranged ∧
      Plan.legsFrom Point.distance style.speed Point.origin arranged = .ok plan.legs ∧
      plan.total = Plan.sum p.ink plan.legs := by
  unfold ContourStyle.plan Plan.ofContours at h
  split at h
  · cases h
  · next arranged harranged =>
    split at h
    · cases h
    · next legs hlegs =>
      cases h
      exact ⟨arranged, harranged, hlegs, rfl⟩

theorem exists_light (hplan : style.plan p contours = .ok plan)
    (hlit : ∃ c ∈ style.keep contours, ∃ pt ∈ c, p.brightness pt.x pt.y ≠ 0) (dark : Float) :
    ∃ s ∈ plan.legs.flatMap (Leg.strokes style.speed dark p.ink), 1 ≤ value s.demand := by
  obtain ⟨arranged, harranged, hlegs, -⟩ := plan_eq_ok hplan
  obtain ⟨c, hc, pt, hpt, hbrightness⟩ := hlit
  have hmem : c ∈ plan.legs.map Leg.contour := by
    rw [Plan.contours_of_legsFrom hlegs]
    exact (DrawingOrder.perm_of_arrange harranged).mem_iff.2 hc
  obtain ⟨leg, hleg, rfl⟩ := List.mem_map.1 hmem
  refine ⟨⟨p.ink pt, pt, none⟩, List.mem_flatMap.2 ⟨leg, hleg, ?_⟩, ?_⟩
  · exact List.mem_append_right _ (List.mem_map_of_mem hpt)
  · have hpos : 1 ≤ (p.brightness pt.x pt.y).toNat :=
      Nat.pos_of_ne_zero fun hzero => hbrightness (UInt8.toNat_inj.1 hzero)
    rw [p.value_ink]
    exact_mod_cast hpos

variable [Hypot.Accurate]

theorem notNegative_total (hplan : style.plan p contours = .ok plan) : NotNegative plan.total := by
  obtain ⟨arranged, -, hlegs, hsum⟩ := plan_eq_ok hplan
  rw [hsum]
  exact Plan.notNegative_sum
    (Plan.notNegative_of_legsFrom (fun a b d h => Point.notNegative_of_distance h) hlegs)
    fun pt => (p.hasValue_ink pt).notNegative

theorem hasValue_demand (hplan : style.plan p contours = .ok plan) (htotal : HasValue plan.total t)
    (dark : Float) :
    ∀ s ∈ plan.legs.flatMap (Leg.strokes style.speed dark p.ink),
      HasValue s.demand (value s.demand) ∧ value s.demand ≤ t := by
  obtain ⟨arranged, -, hlegs, hsum⟩ := plan_eq_ok hplan
  exact Plan.hasValue_demand dark
    (Plan.notNegative_of_legsFrom (fun a b d h => Point.notNegative_of_distance h) hlegs)
    p.hasValue_ink (hsum ▸ htotal)

theorem exists_motion (hplan : style.plan p contours = .ok plan) (htotal : HasValue plan.total t)
    (hspeed : 0.0 < style.speed) {arranged : List Contour}
    (harranged : style.ordering.arrange (style.keep contours) = .ok arranged)
    (hmoves : Contour.Moves Point.origin arranged) (dark : Float) :
    ∃ s ∈ plan.legs.flatMap (Leg.strokes style.speed dark p.ink),
      0 < value style.speed ∧ value style.speed ≤ value s.demand := by
  obtain ⟨arranged', harranged', hlegs, -⟩ := plan_eq_ok hplan
  rw [harranged] at harranged'
  cases harranged'
  obtain ⟨leg, hleg, a, b, d, hhead, hne, hd, htravel⟩ := Plan.exists_travel hspeed hlegs hmoves
  have hstroke := List.mem_flatMap.2
    ⟨leg, hleg, Leg.travel_mem_strokes dark p.ink hspeed hhead⟩
  obtain ⟨hvalue, -⟩ := hasValue_demand hplan htotal dark _ hstroke
  refine ⟨_, hstroke, ?_⟩
  dsimp only at hvalue ⊢
  rw [htravel] at hvalue ⊢
  exact speed_le_travel hspeed hd hne hvalue

theorem exists_demand (hplan : style.plan p contours = .ok plan) (htotal : HasValue plan.total t)
    (hdemand : style.HasDemand p contours) (dark : Float) :
    ∃ s ∈ plan.legs.flatMap (Leg.strokes style.speed dark p.ink),
      0 < value s.demand ∧ (style.Moderate → 2 ^ (-900 : ℤ) ≤ value s.demand) := by
  rcases hdemand with hlit | ⟨hspeed, arranged, harranged, hmoves⟩
  · obtain ⟨s, hs, hone⟩ := exists_light hplan hlit dark
    exact ⟨s, hs, lt_of_lt_of_le one_pos hone, fun _ => le_trans least_moderate_le_one hone⟩
  · obtain ⟨s, hs, hpos, hle⟩ := exists_motion hplan htotal hspeed harranged hmoves dark
    exact ⟨s, hs, lt_of_lt_of_le hpos hle, fun hmoderate => le_trans (hmoderate hspeed).1 hle⟩

theorem exists_total (hplan : style.plan p contours = .ok plan) (hmoderate : style.Moderate)
    {capacity : ℕ} (hfew : Contour.Few (style.keep contours) capacity) :
    ∃ t, HasValue plan.total t := by
  obtain ⟨arranged, harranged, hlegs, hsum⟩ := plan_eq_ok hplan
  rw [hsum]
  refine Plan.exists_total (Plan.contours_of_legsFrom hlegs) (Plan.exists_travel_le ?_ hlegs) ?_
    (hfew.of_perm (DrawingOrder.perm_of_arrange harranged))
  · intro hspeed
    obtain ⟨hlow, hhigh⟩ := hmoderate hspeed
    exact ⟨hasValue_of_value_pos (lt_of_lt_of_le (two_zpow_pos _) hlow), hhigh⟩
  · intro pt
    refine ⟨_, p.hasValue_ink_toNat pt, ?_⟩
    exact_mod_cast (UInt8.toNat_lt (p.brightness pt.x pt.y)).le

end ContourStyle

end VectorDisplay
