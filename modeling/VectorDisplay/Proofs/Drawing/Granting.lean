import VectorDisplay.Proofs.Drawing.Counts
import VectorDisplay.Proofs.Drawing.Distance
/-!
Drawing always ends. The running total of a budget is a 64-bit word, and it stays one: as long as all
batches fit, it is no larger than the buffer, and one more grant is at most as large as the scaled
total. A total so small that its scale is infinite grants nothing until its first demand, which is cut.
Main statement: a frame that has a plan is drawn.
-/

set_option autoImplicit false

namespace VectorDisplay

open Double

section Rounding

variable {x : Float} {q : ℚ}

theorem Amount.hasValue_zero : HasValue (Amount.zero : Float) 0 := by
  have h := hasValue_ofNat (n := 0) (by norm_num)
  rw [Nat.cast_zero] at h
  exact h

theorem Amount.hasValue_clip (h : HasValue x q) : HasValue (Amount.clip x) q := by
  unfold Amount.clip
  by_cases hpos : 0.0 < x
  · rwa [if_pos (show Amount.positive x = true from decide_eq_true hpos)]
  · rw [if_neg (show ¬ Amount.positive x = true by simpa [Amount.positive] using hpos)]
    have hle : q ≤ 0 := not_lt.1 fun hq => hpos ((Double.hasValue_zero.lt_iff h).2 hq)
    rw [le_antisymm hle h.nonneg]
    exact hasValue_zero

theorem Amount.units_eq_min (h : HasValue x q) : Amount.units x = min ⌊q⌋₊ (2 ^ 64 - 1) :=
  h.toUInt64_eq

theorem Amount.hasValue_floor (h : HasValue x q) (hq : q < 2 ^ 53) :
    HasValue (Amount.whole x) ⌊q⌋₊ ∧ Amount.units (Amount.whole x) = ⌊q⌋₊ := by
  have hlt : x < integralFrom := (h.lt_iff hasValue_integralFrom).2 hq
  have hfloor : ⌊q⌋₊ < 2 ^ 53 := (Nat.floor_lt h.nonneg).2 (by exact_mod_cast hq)
  have hn : x.toUInt64.toNat = ⌊q⌋₊ := by
    rw [h.toUInt64_eq]
    exact Nat.min_eq_left (by omega)
  have hwhole : Amount.whole x = x.toUInt64.toFloat := if_pos hlt
  have hw := hasValue_toFloat (n := x.toUInt64) (by omega)
  rw [hn, ← hwhole] at hw
  refine ⟨hw, ?_⟩
  rw [Amount.units_eq_min hw, Nat.floor_natCast]
  exact Nat.min_eq_left (by omega)

theorem Amount.hasValue_whole (h : HasValue x q) :
    ∃ w, HasValue (Amount.whole x) w ∧ w ≤ q ∧ q - w ≤ 1 ∧
      ((Amount.units (Amount.whole x) : ℕ) : ℚ) ≤ w := by
  rcases lt_or_ge q (2 ^ 53) with hq | hq
  · obtain ⟨hw, hunits⟩ := Amount.hasValue_floor h hq
    exact ⟨_, hw, Nat.floor_le h.nonneg, by linarith [Nat.lt_floor_add_one q], by rw [hunits]⟩
  · have hwhole : Amount.whole x = x :=
      if_neg fun hlt => absurd ((h.lt_iff hasValue_integralFrom).1 hlt) (not_lt.2 hq)
    rw [hwhole]
    refine ⟨q, h, le_rfl, by norm_num, ?_⟩
    rw [Amount.units_eq_min h]
    exact le_trans (by exact_mod_cast Nat.min_le_left _ _) (Nat.floor_le h.nonneg)

theorem roundDemand_le {demand scale carry : Float} {d s c : ℚ} {k : ℕ} (hk : k < 1000)
    (hd : HasValue demand d) (hs : HasValue scale s) (hc : HasValue carry c)
    (hle : d * s ≤ 2 ^ (k + 1)) (hc1 : c ≤ 1) :
    (roundDemand demand scale carry).1 ≤ 3 * 2 ^ k ∧
      ∃ c', HasValue (roundDemand demand scale carry).2 c' ∧ c' ≤ 1 := by
  obtain ⟨p, hp, hpk⟩ :=
    (hd.mul hs).exists_le (short_two_pow (k + 1)) (two_pow_lt_limit (by omega)) hle
  have hone : (1 : ℚ) ≤ 2 ^ k := one_le_pow₀ (by norm_num)
  have hsum : p + c ≤ (3 : ℕ) * 2 ^ k := by
    rw [pow_succ] at hpk
    push_cast
    linarith
  have hlimit : (3 : ℕ) * 2 ^ k < limit Float.Model.Format.binary64 := by
    refine lt_trans ?_ (two_pow_lt_limit (k := k + 2) (by omega))
    rw [pow_add]
    push_cast
    linarith
  obtain ⟨u, hu, huk⟩ := (HasValue.add hp hc).exists_le (short_natCast_mul (by norm_num) k) hlimit
    hsum
  have hdue := Amount.hasValue_clip hu
  obtain ⟨w, hw, hwu, huw, hunits⟩ := Amount.hasValue_whole hdue
  have hone : Short Float.Model.Format.binary64 1 := by simpa using short_two_pow 0
  have hlt : (1 : ℚ) < limit Float.Model.Format.binary64 := by
    simpa using two_pow_lt_limit (k := 0) (by norm_num)
  obtain ⟨c', hc', hle'⟩ := (hdue.sub hw hwu).exists_le hone hlt huw
  refine ⟨?_, c', hc', hle'⟩
  have : (((roundDemand demand scale carry).1 : ℕ) : ℚ) ≤ (3 : ℕ) * 2 ^ k :=
    le_trans hunits (le_trans hwu huk)
  exact_mod_cast this

/-- At an infinite scale, nothing is due to no demand, and more than any buffer holds to another. -/
theorem roundDemand_infinite {demand scale carry : Float} {d : ℚ} (hd : HasValue demand d)
    (hs : IsInfinite scale) (hc : HasValue carry 0) :
    (d = 0 ∧ (roundDemand demand scale carry).1 = 0 ∧
      HasValue (roundDemand demand scale carry).2 0) ∨
      (0 < d ∧ (roundDemand demand scale carry).1 = 2 ^ 64 - 1) := by
  change (d = 0 ∧ Amount.units (Amount.whole (Amount.clip (demand * scale + carry))) = 0 ∧
      HasValue (Amount.clip (demand * scale + carry) -
        Amount.whole (Amount.clip (demand * scale + carry))) 0) ∨
    (0 < d ∧ Amount.units (Amount.whole (Amount.clip (demand * scale + carry))) = 2 ^ 64 - 1)
  rcases hd.mul_infinite hs with ⟨hzero, hnan⟩ | ⟨hpos, hinfinite⟩
  · left
    have hclip : Amount.clip (demand * scale + carry) = Amount.zero :=
      if_neg fun hpositive => not_zero_lt_notANumber (notANumber_add hnan carry)
        (of_decide_eq_true hpositive)
    rw [hclip]
    obtain ⟨w, hw, hw0, -, hunits⟩ := Amount.hasValue_whole Amount.hasValue_zero
    obtain rfl := le_antisymm hw0 hw.nonneg
    have hcarry := (Amount.hasValue_zero.sub hw le_rfl)
    rw [sub_zero] at hcarry
    refine ⟨hzero, ?_, hcarry.exact short_zero ?_⟩
    · exact_mod_cast le_antisymm hunits (Nat.cast_nonneg _)
    · exact lt_of_lt_of_le one_pos (by simpa using (two_pow_lt_limit (k := 0) (by norm_num)).le)
  · right
    have hdue := hinfinite.add hc
    have hclip : Amount.clip (demand * scale + carry) = demand * scale + carry :=
      if_pos (decide_eq_true hdue.zero_lt)
    have hwhole : Amount.whole (demand * scale + carry) = demand * scale + carry :=
      if_neg (hdue.not_lt hasValue_integralFrom)
    rw [hclip, hwhole]
    exact ⟨hpos, hdue.toUInt64_eq⟩

end Rounding

/-- A budget with room for every demand up to `total`, of which `free` places are left. Either its
scale is moderate, or it is infinite and nothing was granted yet. -/
inductive Budget.Steady (b : Budget Float) (total : ℚ) (free : ℕ) : Prop where
  | moderate {s c : ℚ} (hscale : HasValue b.scale s) (hs : total * s ≤ 2 ^ 63)
      (hcarry : HasValue b.carry c) (hc : c ≤ 1) (hroom : b.granted + free < 2 ^ 62)
  | infinite (hscale : IsInfinite b.scale) (hcarry : HasValue b.carry 0) (hgranted : b.granted = 0)
      (hroom : free < 2 ^ 62)

section Grants

variable {b : Budget Float} {total d : ℚ} {free : ℕ} {demand : Float}

/-- A demand is granted, and while its samples fit the budget remains steady. -/
theorem Budget.Steady.grant (h : b.Steady total free) (hd : HasValue demand d) (hle : d ≤ total) :
    ∃ count b', b.grant demand = .ok (count, b') ∧
      (count ≤ free → b'.Steady total (free - count)) := by
  have hlimit : wordLimit = 2 ^ 64 := rfl
  cases h with
  | @moderate s c hscale hs hcarry hc hroom =>
    have hds : d * s ≤ 2 ^ 63 := le_trans (mul_le_mul_of_nonneg_right hle hscale.nonneg) hs
    obtain ⟨hcount, c', hcarry', hc'⟩ := roundDemand_le (by norm_num) hd hscale hcarry hds hc
    have hword : word (b.granted + (roundDemand demand b.scale b.carry).1) =
        .ok (b.granted + (roundDemand demand b.scale b.carry).1) :=
      word_eq_ok_iff.2 ⟨by omega, rfl⟩
    refine ⟨_, _, by simp only [Budget.grant, hword]; rfl, ?_⟩
    intro hfits
    exact .moderate hscale hs hcarry' hc' (by dsimp only; omega)
  | infinite hscale hcarry hgranted hroom =>
    -- Only the first demand that is not zero is granted more than fits, and drawing ends there; so
    -- the running total never takes a second grant of this size.
    rcases roundDemand_infinite hd hscale hcarry with ⟨-, hcount, hcarry'⟩ | ⟨-, hcount⟩
    · have hword : word (b.granted + (roundDemand demand b.scale b.carry).1) = .ok 0 :=
        word_eq_ok_iff.2 ⟨by omega, by omega⟩
      refine ⟨_, _, by simp only [Budget.grant, hword]; rfl, ?_⟩
      intro hfits
      exact .infinite hscale hcarry' rfl (by omega)
    · have hword : word (b.granted + (roundDemand demand b.scale b.carry).1) =
          .ok (2 ^ 64 - 1) := word_eq_ok_iff.2 ⟨by omega, by omega⟩
      refine ⟨_, _, by simp only [Budget.grant, hword]; rfl, ?_⟩
      intro hfits
      omega

def Stroke.Within (s : Stroke Float) (total : ℚ) : Prop := ∃ d, HasValue s.demand d ∧ d ≤ total

theorem Stroke.exists_drawAll (variants : Point → Variants) {strokes : List (Stroke Float)}
    {b : Budget Float} {buffer : Buffer} (h : b.Steady total buffer.remaining)
    (hwithin : ∀ s ∈ strokes, s.Within total) :
    ∃ b' after cut, drawAll variants strokes b buffer = .ok (b', after, cut) ∧
      (cut = none → b'.Steady total after.remaining) := by
  induction strokes generalizing b buffer with
  | nil => exact ⟨b, buffer, none, rfl, fun _ => h⟩
  | cons s rest ih =>
    obtain ⟨d, hd, hle⟩ := hwithin s (by simp)
    obtain ⟨count, b', hgrant, hsteady⟩ := h.grant hd hle
    have hlaid := Batch.laid_layAll (s.batches variants count) buffer
    unfold drawAll
    simp only [hgrant]
    cases hlay : Batch.layAll (s.batches variants count) buffer with
    | mk after cut =>
      rw [hlay] at hlaid
      cases cut with
      | some cut => exact ⟨_, _, _, rfl, by simp⟩
      | none =>
        have hfits := hlaid.cut_eq_none_iff.1 rfl
        have hleft := hlaid.remaining_eq
        rw [total_batches] at hfits hleft
        have hnext := hsteady hfits
        rw [← hleft] at hnext
        exact ih hnext fun r hr => hwithin r (by simp [hr])

theorem exists_drawLegs (variants : Point → Variants) {legs : List (List (Stroke Float))}
    {b : Budget Float} {buffer : Buffer} (h : b.Steady total buffer.remaining)
    (hwithin : ∀ strokes ∈ legs, ∀ s ∈ strokes, s.Within total) (drawn : ℕ) :
    ∃ d, drawLegs variants legs b buffer drawn = .ok d := by
  induction legs generalizing b buffer drawn with
  | nil => exact ⟨_, rfl⟩
  | cons strokes rest ih =>
    obtain ⟨b', after, cut, hdraw, hsteady⟩ :=
      Stroke.exists_drawAll variants h (hwithin strokes (by simp))
    unfold drawLegs
    rw [hdraw]
    cases cut with
    | some cut => exact ⟨_, rfl⟩
    | none => exact ih (hsteady rfl) (fun r hr => hwithin r (by simp [hr])) (drawn + 1)

end Grants

section Plans

variable {distance : Point → Point → Checked Float} {speed : Float} {brightness : Point → Float}

theorem Plan.notNegative_of_legsFrom (hdistance : ∀ a b d, distance a b = .ok d → NotNegative d)
    {here : Point} {contours : List Contour} {legs : List (Leg Float)}
    (h : legsFrom distance speed here contours = .ok legs) :
    ∀ leg ∈ legs, NotNegative leg.travel := by
  induction contours generalizing here legs with
  | nil =>
    cases h
    simp
  | cons c rest ih =>
    obtain ⟨travel, others, hothers, rfl, htravel⟩ := legsFrom_cons_eq_ok h
    have hnonneg : NotNegative travel := by
      rcases htravel with ⟨-, rfl⟩ | ⟨first, d, -, hspeed, hd, rfl⟩
      · exact NotNegative.ofNat 0
      · exact (hdistance _ _ d hd).mul (NotNegative.of_zero_lt (of_decide_eq_true hspeed))
    simpa using ⟨hnonneg, ih hothers⟩

theorem Plan.notNegative_sum {legs : List (Leg Float)}
    (htravel : ∀ leg ∈ legs, NotNegative leg.travel)
    (hbrightness : ∀ p, NotNegative (brightness p)) : NotNegative (sum brightness legs) :=
  NotNegative.foldl_add
    (fun leg hleg => (htravel leg hleg).add
      (NotNegative.foldl_add (fun p _ => hbrightness p) (NotNegative.ofNat 0)))
    (NotNegative.ofNat 0)

theorem Plan.within_sum (speed dark : Float) {legs : List (Leg Float)} {total : ℚ}
    (htotal : HasValue (sum brightness legs) total)
    (htravel : ∀ leg ∈ legs, NotNegative leg.travel) (hbrightness : ∀ p, NotNegative (brightness p)) :
    ∀ strokes ∈ legs.map (Leg.strokes speed dark brightness), ∀ s ∈ strokes, s.Within total := by
  have hzero : NotNegative (Amount.zero : Float) := NotNegative.ofNat 0
  have hink (c : Contour) : NotNegative (c.ink brightness) :=
    NotNegative.foldl_add (fun p _ => hbrightness p) hzero
  have hparts := (HasValue.of_foldl_add htotal
    (fun leg hleg => (htravel leg hleg).add (hink leg.contour)) hzero).2
  intro strokes hstrokes s hs
  obtain ⟨leg, hleg, rfl⟩ := List.mem_map.1 hstrokes
  obtain ⟨a, ha, hle⟩ := hparts leg hleg
  obtain ⟨⟨t, ht, hta⟩, ⟨i, hi, hia⟩⟩ := HasValue.of_add ha (htravel leg hleg) (hink leg.contour)
  have hpoints := (HasValue.of_foldl_add hi (fun p _ => hbrightness p) hzero).2
  rcases List.mem_append.1 hs with hs | hs
  · cases hhead : leg.contour.head? with
    | none => simp [hhead] at hs
    | some first =>
      simp only [hhead] at hs
      split at hs
      · obtain rfl := List.mem_singleton.1 hs
        exact ⟨t, ht, le_trans hta hle⟩
      · simp at hs
  · obtain ⟨p, hp, rfl⟩ := List.mem_map.1 hs
    obtain ⟨b, hb, hbi⟩ := hpoints p hp
    exact ⟨b, hb, le_trans hbi (le_trans hia hle)⟩

theorem Budget.steady_ofTotal {total : Float} {n : ℕ} {b : Budget Float} (hn : n < 2 ^ 62)
    (htotal : NotNegative total) (h : Budget.ofTotal total n = some b) :
    ∃ q, HasValue total q ∧ b.Steady q n := by
  unfold Budget.ofTotal scaleFor at h
  split at h
  · next hdrawn =>
    obtain ⟨hfinite, hpositive⟩ := Bool.and_eq_true_iff.1 hdrawn
    obtain ⟨q, hq⟩ := exists_hasValue htotal hfinite
    have hpos : 0 < q := (Double.hasValue_zero.lt_iff hq).1 (of_decide_eq_true hpositive)
    obtain ⟨z, hz, hlow, hhigh⟩ := hq.exists_two_zpow hpos
    obtain ⟨k, hk, hk62⟩ := (nearest_toModel_ofNat n).exists_le (short_two_pow 62)
      (two_pow_lt_limit (by norm_num)) (by exact_mod_cast hn.le)
    cases h
    refine ⟨q, hq, ?_⟩
    obtain ⟨s, hs, hscale | ⟨hscale, -⟩⟩ := HasValue.div (x := Float.ofNat n) hk hq hpos
    · have hquotient : k / q ≤ 2 ^ (62 - z) := by
        rw [div_le_iff₀ hpos]
        have hsplit : (2 : ℚ) ^ 62 = 2 ^ (62 - z) * 2 ^ z := by
          rw [← two_zpow_add]
          norm_num
        calc k ≤ 2 ^ (62 - z) * 2 ^ z := by rw [← hsplit]; exact hk62
          _ ≤ 2 ^ (62 - z) * q := mul_le_mul_of_nonneg_left hlow (two_zpow_pos _).le
      have hle := hs.le_of_le (short_two_zpow (by omega)) hquotient
      refine .moderate hscale ?_ Amount.hasValue_zero zero_le_one
        (by simpa [Budget.ofScale] using hn)
      calc q * s ≤ 2 ^ (z + 1) * 2 ^ (62 - z) :=
            mul_le_mul hhigh hle (Measures.nonneg hscale) (two_zpow_pos _).le
        _ = (2 : ℚ) ^ (63 : ℤ) := by
          rw [← two_zpow_add]
          congr 1
          omega
        _ = 2 ^ 63 := by norm_num
    · exact .infinite hscale Amount.hasValue_zero rfl (by omega)
  · cases h

theorem Plan.exists_draw (dark : Float) (variants : Point → Variants) {contours : List Contour}
    {plan : Plan Float} {buffer : Buffer}
    (hdistance : ∀ a b d, distance a b = .ok d → NotNegative d)
    (hbrightness : ∀ p, NotNegative (brightness p))
    (hplan : Plan.ofContours distance speed brightness contours = .ok plan)
    (hroom : buffer.remaining < 2 ^ 62) :
    ∃ d, plan.draw speed dark brightness variants buffer = .ok d := by
  unfold ofContours at hplan
  split at hplan
  · cases hplan
  · next legs hlegs =>
    cases hplan
    have htravel := notNegative_of_legsFrom hdistance hlegs
    have htotal := notNegative_sum htravel hbrightness
    unfold draw
    dsimp only
    cases hbudget : Budget.ofTotal (sum brightness legs) buffer.remaining with
    | none => exact ⟨_, rfl⟩
    | some budget =>
      obtain ⟨q, hq, hsteady⟩ := Budget.steady_ofTotal hroom htotal hbudget
      obtain ⟨⟨after, drawn, cut⟩, hdraw⟩ := exists_drawLegs variants hsteady
        (within_sum speed dark hq htravel hbrightness) 0
      dsimp only
      rw [hdraw]
      exact ⟨_, rfl⟩

end Plans

theorem ContourStyle.exists_draw_eq_ok [Hypot] [Hypot.Accurate] {style : ContourStyle} {p : Picture}
    {contours : List Contour} {plan : Plan Float} {buffer : Buffer}
    (hplan : style.plan p contours = .ok plan) (hroom : buffer.remaining < 2 ^ 62) :
    ∃ r after, style.draw p contours buffer = .ok (r, after) := by
  unfold ContourStyle.plan at hplan
  split at hplan
  · cases hplan
  · next arranged harranged =>
    obtain ⟨d, hd⟩ := Plan.exists_draw (clampUnit style.dark)
      (Projection.variants ⟨p.width, p.height, style.dither⟩)
      (fun a b d h => Point.notNegative_of_distance h)
      (fun pt => NotNegative.ofNat (p.brightness pt.x pt.y).toNat) hplan hroom
    change Plan.ofContours Point.distance style.speed
      (fun pt => Float.ofNat (p.brightness pt.x pt.y).toNat) arranged = .ok plan at hplan
    unfold ContourStyle.draw
    simp only [harranged, hplan, hd]
    exact ⟨_, _, rfl⟩

end VectorDisplay
