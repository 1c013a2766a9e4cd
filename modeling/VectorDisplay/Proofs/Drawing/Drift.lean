import VectorDisplay.Proofs.Double.Error
import VectorDisplay.Proofs.Drawing.Granting
/-!
How far grants drift from what is due. One grant is off by a few roundings of what it is due and of
the carry, and what it leaves over is carried without any error; so after all grants the drift has
grown by the same for each, and the total of a plan is off by as many roundings as one of its terms
goes through. Main statement: as long as both are small, all grants together are the capacity or one
less.
-/

set_option autoImplicit false

namespace VectorDisplay

open Double

section Grants

variable {scale : Float} {s : ℚ}

/-- What a demand is granted and leaves over is what it was due, but for a few roundings. -/
theorem roundDemand_near {demand carry : Float} {d c : ℚ} (hs : HasValue scale s)
    (hd : HasValue demand d) (hds : d * s ≤ 2 ^ 50) (hc : HasValue carry c) (hc1 : c < 1) :
    ∃ c', HasValue (roundDemand demand scale carry).2 c' ∧ c' < 1 ∧
      |((roundDemand demand scale carry).1 : ℚ) + c' - (d * s + c)| ≤
        3 * ulp * (d * s) + 2 * ulp := by
  have hds0 : 0 ≤ d * s := mul_nonneg hd.nonneg hs.nonneg
  obtain ⟨p, hp, hpk⟩ :=
    (hd.mul hs).exists_le (short_two_pow 50) (two_pow_lt_limit (by norm_num)) hds
  have hproduct := abs_le.1 (((hd.mul hs).rounds hp).abs_sub_le hds0)
  obtain ⟨u, hu, huk⟩ := (HasValue.add hp hc).exists_le (short_two_pow 51)
    (two_pow_lt_limit (by norm_num)) (by linarith)
  have hsum := abs_le.1 (HasValue.abs_add_sub_le hp hc hu)
  have hdue := Amount.hasValue_clip hu
  obtain ⟨hwhole, hunits⟩ := Amount.hasValue_floor hdue (lt_of_le_of_lt huk (by norm_num))
  have hcount : (roundDemand demand scale carry).1 = ⌊u⌋₊ := hunits
  -- the new carry is exact, so grant and carry together are the rounded sum again
  refine ⟨u - ⌊u⌋₊, hdue.sub_floor hwhole, by linarith [Nat.lt_floor_add_one u], ?_⟩
  rw [hcount, add_sub_cancel]
  have hulp := ulp_pos
  have hsmall := ulp_lt_one
  have htiny := tiny_pos
  have hscaled : (p + c) * ulp ≤ (d * s + (d * s * ulp + tiny) + 1) * ulp :=
    mul_le_mul_of_nonneg_right (by linarith) hulp.le
  have hsquare : d * s * ulp * ulp ≤ d * s * ulp :=
    mul_le_of_le_one_right (mul_nonneg hds0 hulp.le) hsmall.le
  have htinyer : tiny * ulp ≤ tiny := mul_le_of_le_one_right htiny.le hsmall.le
  have hunit := tiny_le_ulp
  rw [abs_le]
  constructor <;> linarith

/-- The errors of grants in turn add up; the carry adds none. -/
theorem roundAll_near (hs : HasValue scale s) {demands : List Float}
    (hd : ∀ d ∈ demands, HasValue d (value d)) (hsum : (demands.map value).sum * s ≤ 2 ^ 50)
    {carry : Float} {c : ℚ} (hc : HasValue carry c) (hc1 : c < 1) :
    ∃ c', 0 ≤ c' ∧ c' < 1 ∧
      |((roundAll scale demands carry).sum : ℚ) + c' - ((demands.map value).sum * s + c)| ≤
        3 * ulp * ((demands.map value).sum * s) + 2 * ulp * demands.length := by
  induction demands generalizing carry c with
  | nil => exact ⟨c, hc.nonneg, hc1, by simp [roundAll]⟩
  | cons d rest ih =>
    have hrest : ∀ e ∈ rest, HasValue e (value e) := fun e he => hd e (List.mem_cons_of_mem _ he)
    have hd0 := hd d List.mem_cons_self
    have hrest0 : 0 ≤ (rest.map value).sum := List.sum_nonneg fun q hq => by
      obtain ⟨e, he, rfl⟩ := List.mem_map.1 hq
      exact (hrest e he).nonneg
    have hds := mul_nonneg hd0.nonneg hs.nonneg
    have hrests := mul_nonneg hrest0 hs.nonneg
    rw [List.map_cons, List.sum_cons, add_mul] at hsum
    obtain ⟨c', hc', hc'1, hstep⟩ := roundDemand_near hs hd0 (by linarith) hc hc1
    obtain ⟨c'', hc''0, hc''1, hrun⟩ := ih hrest (by linarith) hc' hc'1
    refine ⟨c'', hc''0, hc''1, ?_⟩
    rw [abs_le] at hstep hrun ⊢
    rw [roundAll, List.sum_cons, List.map_cons, List.sum_cons, List.length_cons,
      Nat.cast_add_one, Nat.cast_add]
    constructor <;> linarith

theorem natCast_mul_ulp_le {n : ℕ} (h : n ≤ 2 ^ 48) : (n : ℚ) * ulp ≤ 1 / 16 := by
  have hunit : (2 : ℚ) ^ 48 * ulp = 1 / 16 := by norm_num [ulp]
  rw [← hunit]
  exact mul_le_mul_of_nonneg_right (by exact_mod_cast h) ulp_pos.le

theorem scale_near {total : Float} {t : ℚ} {capacity : ℕ} (hcapacity : capacity ≤ 2 ^ 48)
    (ht : HasValue total t) (hpos : 0 < t) (hs : HasValue (Float.ofNat capacity / total) s) :
    |t * s - capacity| ≤ 1 / 8 := by
  have hquotient : (0 : ℚ) ≤ capacity / t := div_nonneg capacity.cast_nonneg hpos.le
  have hnear := abs_le.1
    ((((hasValue_ofNat (by omega)).div ht hpos).rounds hs).abs_sub_le hquotient)
  obtain ⟨z, hz, -, hhigh⟩ := ht.exists_two_zpow hpos
  have htiny : t * tiny ≤ 1 / 16 := by
    calc t * tiny ≤ 2 ^ (z + 1) * tiny := mul_le_mul_of_nonneg_right hhigh tiny_pos.le
      _ ≤ 2 ^ (1024 : ℤ) * tiny :=
          mul_le_mul_of_nonneg_right (zpow_le_zpow_right₀ (by norm_num) (by omega)) tiny_pos.le
      _ = 2 ^ (-50 : ℤ) := by
        rw [tiny, ← two_zpow_add]
        norm_num
      _ ≤ 1 / 16 := by norm_num
  have hcancel : t * (capacity / t) = capacity := mul_div_cancel₀ _ hpos.ne'
  have hlow := mul_le_mul_of_nonneg_left hnear.1 hpos.le
  have hhigh := mul_le_mul_of_nonneg_left hnear.2 hpos.le
  have hrelative : t * (capacity / t * ulp) ≤ 1 / 16 := by
    rw [← mul_assoc, hcancel]
    exact natCast_mul_ulp_le hcapacity
  rw [abs_le]
  constructor <;> linarith

end Grants

section Capacities

variable {capacity k m granted : ℕ} {t v s c : ℚ}

/-- What is due for a sum is near the capacity, if the total that it was scaled by is that sum up to
`k` roundings. -/
theorem due_near (hlow : v * (1 - k * ulp) ≤ t) (hhigh : t * (1 - k * ulp) ≤ v) (hs : 0 ≤ s)
    (hscale : |t * s - capacity| ≤ 1 / 8) (hk : k * (capacity + 1) ≤ 2 ^ 48) :
    |v * s - capacity| ≤ 1 / 2 := by
  have hroundings : k * ulp * (capacity + 1) ≤ 1 / 16 := by
    have := natCast_mul_ulp_le hk
    push_cast at this
    linarith
  have hk0 : 0 ≤ k * ulp := mul_nonneg k.cast_nonneg ulp_pos.le
  obtain ⟨hbelow, habove⟩ := abs_le.1 hscale
  have hlow' := mul_le_mul_of_nonneg_right hlow hs
  have hhigh' := mul_le_mul_of_nonneg_right hhigh hs
  rw [abs_le]
  constructor
  · have hdue : k * ulp * (t * s) ≤ k * ulp * (capacity + 1) :=
      mul_le_mul_of_nonneg_left (by linarith) hk0
    linarith
  · by_contra hmore
    have hone : 0 < 1 - k * ulp := by
      have : k * ulp ≤ k * ulp * (capacity + 1) :=
        le_mul_of_one_le_right hk0 (by linarith [(capacity.cast_nonneg : (0 : ℚ) ≤ capacity)])
      linarith
    have hdue : (capacity + 1 / 2) * (1 - k * ulp) < v * s * (1 - k * ulp) :=
      mul_lt_mul_of_pos_right (by linarith) hone
    linarith

theorem granted_near (hdue : |v * s - capacity| ≤ 1 / 2) (hcapacity : capacity ≤ 2 ^ 48)
    (hm : m ≤ 2 ^ 48) (hc0 : 0 ≤ c) (hc1 : c < 1)
    (hdrift : |(granted : ℚ) + c - v * s| ≤ 3 * ulp * (v * s) + 2 * ulp * m) :
    granted ≤ capacity ∧ capacity ≤ granted + 1 := by
  have hsmall : ulp ≤ 1 / 16 := by norm_num [ulp]
  have hcapacity' := natCast_mul_ulp_le hcapacity
  have hm' := natCast_mul_ulp_le hm
  obtain ⟨hbelow, habove⟩ := abs_le.1 hdue
  obtain ⟨hless, hmore⟩ := abs_le.1 hdrift
  have hscaled : v * s * ulp ≤ (capacity + 1 / 2) * ulp :=
    mul_le_mul_of_nonneg_right (by linarith) ulp_pos.le
  constructor
  · have : (granted : ℚ) < capacity + 1 := by linarith
    exact Nat.lt_succ_iff.1 (by exact_mod_cast this)
  · have : (capacity : ℚ) < granted + 1 + 1 := by linarith
    exact Nat.lt_succ_iff.1 (by exact_mod_cast this)

end Capacities

section Plans

variable {brightness : Point → Float} {speed dark : Float}

theorem value_zero : value (Amount.zero : Float) = 0 := Amount.hasValue_zero.value_eq

theorem Contour.rounded_ink {c : Contour} {q : ℚ}
    (hbrightness : ∀ p, HasValue (brightness p) (value (brightness p)))
    (h : HasValue (c.ink brightness) q) :
    Rounded c.length (c.ink brightness) (c.map fun p => value (brightness p)).sum := by
  have hsum := (Rounded.of_hasValue Amount.hasValue_zero).foldl_add
    (fun p _ => .of_hasValue (hbrightness p)) h
  rw [zero_add, zero_add] at hsum
  exact hsum

/-- What a leg demands: its travel and the brightness of its points. -/
def Leg.due (brightness : Point → Float) (leg : Leg Float) : ℚ :=
  value leg.travel + (leg.contour.map fun p => value (brightness p)).sum

variable (brightness dark) in
theorem Leg.sum_strokes {leg : Leg Float}
    (hfree : leg.contour.head? = none ∨ Amount.positive speed = false → leg.travel = Amount.zero) :
    ((leg.strokes speed dark brightness).map fun s => value s.demand).sum = leg.due brightness := by
  unfold strokes due
  cases hhead : leg.contour.head? with
  | none => simp [hfree (.inl hhead), value_zero, Function.comp_def]
  | some first =>
    by_cases hspeed : Amount.positive speed = true
    · simp [hspeed, Function.comp_def]
    · simp [hspeed, hfree (.inr (eq_false_of_ne_true hspeed)), value_zero, Function.comp_def]

namespace Plan

/-- The total of a plan is what its legs demand, up to the roundings of the longest leg and one for
every leg. -/
theorem rounded_sum {legs : List (Leg Float)} {q : ℚ} {longest : ℕ}
    (hbrightness : ∀ p, HasValue (brightness p) (value (brightness p)))
    (htravel : ∀ leg ∈ legs, NotNegative leg.travel)
    (hlongest : ∀ leg ∈ legs, leg.contour.length ≤ longest) (h : HasValue (sum brightness legs) q) :
    Rounded (longest + 1 + legs.length) (sum brightness legs)
      (legs.map (Leg.due brightness)).sum := by
  have hink (c : Contour) : NotNegative (c.ink brightness) :=
    NotNegative.foldl_add (fun p _ => (hbrightness p).notNegative) (NotNegative.ofNat 0)
  have hparts := (HasValue.of_foldl_add h
    (fun leg hleg => (htravel leg hleg).add (hink leg.contour)) (NotNegative.ofNat 0)).2
  have hleg (leg : Leg Float) (hmem : leg ∈ legs) :
      Rounded (longest + 1) (leg.travel + leg.contour.ink brightness) (leg.due brightness) := by
    obtain ⟨a, ha, -⟩ := hparts leg hmem
    obtain ⟨⟨t, ht, -⟩, ⟨i, hi, -⟩⟩ := HasValue.of_add ha (htravel leg hmem) (hink leg.contour)
    have htravelled : Rounded longest leg.travel (value leg.travel) := by
      rw [ht.value_eq]
      exact (Rounded.of_hasValue ht).mono (Nat.zero_le _)
    exact htravelled.add ((Contour.rounded_ink hbrightness hi).mono (hlongest leg hmem)) ha
  have hzero : Rounded (longest + 1) (Amount.zero : Float) 0 :=
    (Rounded.of_hasValue Amount.hasValue_zero).mono (Nat.zero_le _)
  have hsum := hzero.foldl_add hleg h
  rw [zero_add] at hsum
  exact hsum

variable {distance : Point → Point → Checked Float} {here : Point} {contours : List Contour}
  {legs : List (Leg Float)}

theorem contours_of_legsFrom (h : legsFrom distance speed here contours = .ok legs) :
    legs.map Leg.contour = contours := by
  induction contours generalizing here legs with
  | nil =>
    cases h
    rfl
  | cons c rest ih =>
    obtain ⟨travel, others, hothers, rfl, -⟩ := legsFrom_cons_eq_ok h
    rw [List.map_cons, ih hothers]

theorem free_of_legsFrom (h : legsFrom distance speed here contours = .ok legs) :
    ∀ leg ∈ legs, leg.contour.head? = none ∨ Amount.positive speed = false →
      leg.travel = Amount.zero := by
  induction contours generalizing here legs with
  | nil =>
    cases h
    simp
  | cons c rest ih =>
    obtain ⟨travel, others, hothers, rfl, htravel⟩ := legsFrom_cons_eq_ok h
    have hfree : c.head? = none ∨ Amount.positive speed = false → travel = Amount.zero := by
      intro hunmeasured
      rcases htravel with ⟨-, hzero⟩ | ⟨first, d, hhead, hspeed, -⟩
      · exact hzero
      · simp [hhead, hspeed] at hunmeasured
    exact List.forall_mem_cons.2 ⟨hfree, ih hothers⟩

variable (brightness dark) in
theorem sum_strokes (hfree : ∀ leg ∈ legs, leg.contour.head? = none ∨
      Amount.positive speed = false → leg.travel = Amount.zero) :
    (((legs.flatMap (Leg.strokes speed dark brightness)).map Stroke.demand).map value).sum =
      (legs.map (Leg.due brightness)).sum := by
  induction legs with
  | nil => rfl
  | cons leg rest ih =>
    obtain ⟨hleg, hrest⟩ := List.forall_mem_cons.1 hfree
    have hstrokes := Leg.sum_strokes brightness dark hleg
    rw [List.flatMap_cons, List.map_append, List.map_append, List.sum_append, ih hrest, List.map_map,
      List.map_cons, List.sum_cons, ← hstrokes]
    rfl

variable (dark) in
theorem hasValue_demand {t : ℚ} (htravel : ∀ leg ∈ legs, NotNegative leg.travel)
    (hbrightness : ∀ p, HasValue (brightness p) (value (brightness p)))
    (htotal : HasValue (sum brightness legs) t) :
    ∀ s ∈ legs.flatMap (Leg.strokes speed dark brightness),
      HasValue s.demand (value s.demand) ∧ value s.demand ≤ t := by
  intro s hs
  obtain ⟨leg, hleg, hmem⟩ := List.mem_flatMap.1 hs
  obtain ⟨q, hq, hle⟩ := within_sum speed dark htotal htravel
    (fun p => (hbrightness p).notNegative) _ (List.mem_map_of_mem hleg) s hmem
  rw [hq.value_eq]
  exact ⟨hq, hle⟩

theorem length_strokes_le (legs : List (Leg Float)) :
    (legs.flatMap (Leg.strokes speed dark brightness)).length ≤
      ((legs.map Leg.contour).map fun c => c.length + 1).sum := by
  induction legs with
  | nil => simp
  | cons leg rest ih =>
    have hleg : (leg.strokes speed dark brightness).length ≤ leg.contour.length + 1 := by
      unfold Leg.strokes
      rw [List.length_append, List.length_map]
      split
      · simp
      · split
        · simp
          omega
        · simp
    simp only [List.flatMap_cons, List.length_append, List.map_cons, List.sum_cons]
    omega

end Plan

/-- So few points and contours, for a capacity, that rounding errors stay below one sample. -/
structure Contour.Few (contours : List Contour) (capacity : ℕ) : Prop where
  roundings : ∃ longest, (∀ c ∈ contours, c.length ≤ longest) ∧
    (longest + 1 + contours.length) * (capacity + 1) ≤ 2 ^ 48
  strokes : (contours.map fun c => c.length + 1).sum ≤ 2 ^ 48

theorem Contour.Few.of_perm {contours others : List Contour} {capacity : ℕ}
    (h : Contour.Few contours capacity) (hperm : others.Perm contours) :
    Contour.Few others capacity := by
  obtain ⟨⟨longest, hlongest, hroundings⟩, hstrokes⟩ := h
  refine ⟨⟨longest, fun c hc => hlongest c (hperm.mem_iff.1 hc), ?_⟩, ?_⟩
  · rwa [hperm.length_eq]
  · rwa [(hperm.map _).sum_eq]

variable (dark) in
theorem Plan.sum_counts_near {distance : Point → Point → Checked Float} {here : Point}
    {contours : List Contour} {legs : List (Leg Float)} {t s : ℚ} {capacity : ℕ}
    (hlegs : legsFrom distance speed here contours = .ok legs)
    (htravel : ∀ leg ∈ legs, NotNegative leg.travel)
    (hbrightness : ∀ p, HasValue (brightness p) (value (brightness p)))
    (htotal : HasValue (sum brightness legs) t) (hpos : 0 < t)
    (hscale : HasValue (Float.ofNat capacity / sum brightness legs) s)
    (hfew : Contour.Few contours capacity) {counts : List ℕ}
    (hcounts : roundAll (Float.ofNat capacity / sum brightness legs)
      ((legs.flatMap (Leg.strokes speed dark brightness)).map Stroke.demand) Amount.zero = counts) :
    counts.sum ≤ capacity ∧ capacity ≤ counts.sum + 1 := by
  obtain ⟨⟨longest, hlongest, hroundings⟩, hstrokes⟩ := hfew
  have hcontours := contours_of_legsFrom hlegs
  have hlength : legs.length = contours.length := by rw [← hcontours, List.length_map]
  have hcapacity : capacity ≤ 2 ^ 48 :=
    le_trans (Nat.le_succ _) (le_trans (Nat.le_mul_of_pos_left _ (by omega)) hroundings)
  have hbounds := (rounded_sum hbrightness htravel
    (fun leg hleg => hlongest _ (hcontours ▸ List.mem_map_of_mem hleg)) htotal).bounds htotal
  rw [hlength] at hbounds
  have hdue := due_near hbounds.1 hbounds.2 hscale.nonneg
    (scale_near hcapacity htotal hpos hscale) hroundings
  have hroom : (legs.map (Leg.due brightness)).sum * s ≤ 2 ^ 50 := by
    have hcapacityq : (capacity : ℚ) ≤ 2 ^ 48 := by exact_mod_cast hcapacity
    linarith [(abs_le.1 hdue).2]
  have hdemands : ∀ d ∈ (legs.flatMap (Leg.strokes speed dark brightness)).map Stroke.demand,
      HasValue d (value d) := by
    intro d hd
    obtain ⟨stroke, hstroke, rfl⟩ := List.mem_map.1 hd
    exact (hasValue_demand dark htravel hbrightness htotal stroke hstroke).1
  have hsum := sum_strokes brightness dark (free_of_legsFrom hlegs)
  obtain ⟨c, hc0, hc1, hdrift⟩ := roundAll_near hscale hdemands
    (by rw [hsum]; exact hroom) Amount.hasValue_zero one_pos
  rw [hcounts, hsum, add_zero, List.length_map] at hdrift
  refine granted_near hdue hcapacity ?_ hc0 hc1 hdrift
  refine le_trans (length_strokes_le legs) ?_
  rwa [hcontours]

end Plans

end VectorDisplay
