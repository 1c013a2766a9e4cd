import VectorDisplay.Proofs.Double.Value
/-!
Rounding errors. A double and its neighbours are no further apart than `ulp` of its size, or `tiny`
where it is smaller than that. Sums are multiples of `tiny` already, so their errors are relative,
and a sum of sums is off by no more than as many roundings as any of its terms goes through.
-/

set_option autoImplicit false

namespace VectorDisplay

open Float.Model (Format UnpackedFloat)

namespace Double

/-- How far apart neighbours are, for a double of one. -/
def ulp : ℚ := 2 ^ (-52 : ℤ)

def tiny : ℚ := 2 ^ (-1074 : ℤ)

theorem ulp_pos : 0 < ulp := two_zpow_pos _

theorem tiny_pos : 0 < tiny := two_zpow_pos _

theorem ulp_lt_one : ulp < 1 := by norm_num [ulp]

theorem tiny_le_ulp : 2 * tiny ≤ ulp := by
  have hsplit : 2 * tiny = 2 ^ (-1073 : ℤ) := by
    rw [tiny, show (-1073 : ℤ) = 1 + -1074 by norm_num, two_zpow_add, zpow_one]
  rw [hsplit]
  exact zpow_le_zpow_right₀ (by norm_num) (by norm_num)

section Neighbours

variable {v r : ℚ}

theorem short_natCast_mul_two_zpow {n : ℕ} {t : ℤ} (hn : n ≤ 2 ^ 53) (ht : -1074 ≤ t) :
    Short Format.binary64 (n * 2 ^ t) := by
  rcases Nat.lt_or_eq_of_le hn with hn | rfl
  · exact ⟨n, t, hn, le_trans (by decide) ht, rfl⟩
  · have hpow : ((2 ^ 53 : ℕ) : ℚ) * 2 ^ t = 2 ^ (53 + t) := by
      rw [two_zpow_add]
      norm_num
    rw [hpow]
    exact short_two_zpow (by omega)

theorem short_one : Short Format.binary64 1 := by simpa using short_two_pow 0

/-- A positive number lies between neighbours that are no further apart than `ulp` of it, or `tiny`. -/
theorem exists_neighbours (hpos : 0 < v) : ∃ (n : ℕ) (t : ℤ), n < 2 ^ 53 ∧ -1074 ≤ t ∧
    n * 2 ^ t ≤ v ∧ v ≤ (n + 1 : ℕ) * 2 ^ t ∧ 2 ^ t ≤ max (v * ulp) tiny := by
  have hlow : (2 : ℚ) ^ Int.log 2 v ≤ v := Int.zpow_log_le_self (by norm_num) hpos
  have hhigh : v < (2 : ℚ) ^ (Int.log 2 v + 1) := Int.lt_zpow_succ_log_self (by norm_num) v
  generalize Int.log 2 v = z at hlow hhigh
  obtain ⟨t, ht⟩ : ∃ t, max (z - 52) (-1074) = t := ⟨_, rfl⟩
  have hstep := two_zpow_pos t
  refine ⟨⌊v / 2 ^ t⌋₊, t, ?_, by omega, ?_, ?_, ?_⟩
  · rw [Nat.floor_lt (by positivity), div_lt_iff₀ hstep]
    calc v < 2 ^ (z + 1) := hhigh
      _ ≤ 2 ^ (53 + t) := zpow_le_zpow_right₀ (by norm_num) (by omega)
      _ = ((2 ^ 53 : ℕ) : ℚ) * 2 ^ t := by
        rw [two_zpow_add]
        norm_num
  · rw [← le_div_iff₀ hstep]
    exact Nat.floor_le (by positivity)
  · rw [← div_le_iff₀ hstep]
    push_cast
    exact (Nat.lt_floor_add_one _).le
  · rcases max_choice (z - 52) (-1074) with hmax | hmax
    · refine le_max_of_le_left ?_
      rw [← ht, hmax, ulp, show z - 52 = z + -52 by ring, two_zpow_add]
      exact mul_le_mul_of_nonneg_right hlow (two_zpow_pos _).le
    · refine le_max_of_le_right ?_
      rw [← ht, hmax, tiny]

theorem Rounds.abs_sub_le_max (h : Rounds Format.binary64 v r) (hv : 0 ≤ v) :
    |r - v| ≤ max (v * ulp) tiny := by
  rcases hv.eq_or_lt with rfl | hpos
  · rw [le_antisymm (h.le_of_le short_zero le_rfl) (h.ge_of_le short_zero le_rfl)]
    simp [tiny_pos.le]
  obtain ⟨n, t, hn, ht, hbelow, habove, hstep⟩ := exists_neighbours hpos
  have hlow := h.ge_of_le (short_natCast_mul_two_zpow hn.le ht) hbelow
  have hhigh := h.le_of_le (short_natCast_mul_two_zpow (by omega) ht) habove
  push_cast at hhigh habove
  refine le_trans ?_ hstep
  rw [abs_le]
  constructor <;> linarith

theorem Rounds.abs_sub_le (h : Rounds Format.binary64 v r) (hv : 0 ≤ v) :
    |r - v| ≤ v * ulp + tiny :=
  le_trans (h.abs_sub_le_max hv)
    (max_le_add_of_nonneg (mul_nonneg hv ulp_pos.le) tiny_pos.le)

theorem Rounds.abs_sub_le_of_one_le (h : Rounds Format.binary64 v r) (hv : 1 ≤ v) :
    |r - v| ≤ v * ulp := by
  refine le_trans (h.abs_sub_le_max (by linarith)) (max_le le_rfl ?_)
  calc tiny ≤ ulp := by linarith [tiny_le_ulp, tiny_pos]
    _ ≤ v * ulp := le_mul_of_one_le_left ulp_pos.le hv

theorem Short.exists_multiple {q : ℚ} (h : Short Format.binary64 q) : ∃ n : ℕ, q = n * tiny :=
  (h.multiple_or_lt (-1074)).resolve_right fun hlt => absurd hlt.1 (by decide)

theorem Rounds.abs_sub_le_of_multiple {n : ℕ} (h : Rounds Format.binary64 v r) (hv : v = n * tiny) :
    |r - v| ≤ v * ulp := by
  have hnonneg : 0 ≤ v := by
    rw [hv]
    exact mul_nonneg n.cast_nonneg tiny_pos.le
  rcases le_or_gt n (2 ^ 53) with hn | hn
  · have hshort : Short Format.binary64 v := hv ▸ short_natCast_mul_two_zpow hn le_rfl
    rw [le_antisymm (h.le_of_le hshort le_rfl) (h.ge_of_le hshort le_rfl), sub_self, abs_zero]
    exact mul_nonneg hnonneg ulp_pos.le
  · refine le_trans (h.abs_sub_le_max hnonneg) (max_le le_rfl ?_)
    have hlarge : (2 ^ 53 : ℚ) ≤ n := by exact_mod_cast hn.le
    have hunit : (1 : ℚ) ≤ 2 ^ 53 * ulp := by norm_num [ulp]
    calc tiny ≤ 2 ^ 53 * ulp * tiny := le_mul_of_one_le_left tiny_pos.le hunit
      _ = 2 ^ 53 * tiny * ulp := by ring
      _ ≤ v * ulp := by
        rw [hv]
        exact mul_le_mul_of_nonneg_right
          (mul_le_mul_of_nonneg_right hlarge tiny_pos.le) ulp_pos.le

theorem Nearest.rounds {u : UnpackedFloat} (h : Nearest Format.binary64 v u)
    (hu : Measures Format.binary64 u r) : Rounds Format.binary64 v r := by
  obtain ⟨r', hr', hmeasures | ⟨rfl, -⟩⟩ := h
  · rwa [hu.unique hmeasures]
  · cases hu

end Neighbours

section Sums

variable {x y : Float} {a b r v w : ℚ}

theorem HasValue.abs_add_sub_le (hx : HasValue x a) (hy : HasValue y b) (h : HasValue (x + y) r) :
    |r - (a + b)| ≤ (a + b) * ulp := by
  obtain ⟨m, hm⟩ := (Measures.short hx).exists_multiple
  obtain ⟨n, hn⟩ := (Measures.short hy).exists_multiple
  refine ((hx.add hy).rounds h).abs_sub_le_of_multiple (n := m + n) ?_
  rw [hm, hn]
  push_cast
  ring

theorem HasValue.notNegative (h : HasValue x a) : NotNegative x := .inr (Measures.plain h)

/-- A double is a number up to `k` roundings. -/
def Rounded (k : ℕ) (x : Float) (v : ℚ) : Prop :=
  ∃ q, HasValue x q ∧ v * (1 - ulp) ^ k ≤ q ∧ q * (1 - ulp) ^ k ≤ v

theorem one_sub_ulp_pos : 0 < 1 - ulp := sub_pos.2 ulp_lt_one

theorem near_of_abs_sub_le (hv : 0 ≤ v) (h : |r - v| ≤ v * ulp) :
    v * (1 - ulp) ≤ r ∧ r * (1 - ulp) ≤ v := by
  have hnear := abs_le.1 h
  have hulp := ulp_pos
  have hsquare : 0 ≤ v * (ulp * ulp) := by positivity
  refine ⟨by linarith, ?_⟩
  calc r * (1 - ulp) ≤ v * (1 + ulp) * (1 - ulp) :=
        mul_le_mul_of_nonneg_right (by linarith) one_sub_ulp_pos.le
    _ ≤ v := by linarith

namespace Rounded

variable {k : ℕ}

theorem of_hasValue (h : HasValue x v) : Rounded 0 x v := ⟨v, h, by simp, by simp⟩

theorem of_abs_sub_le (h : HasValue x r) (hv : 0 ≤ v) (hnear : |r - v| ≤ v * ulp) :
    Rounded 1 x v := by
  obtain ⟨hlow, hhigh⟩ := near_of_abs_sub_le hv hnear
  exact ⟨r, h, by rwa [pow_one], by rwa [pow_one]⟩

theorem nonneg (h : Rounded k x v) : 0 ≤ v := by
  obtain ⟨q, hq, -, hle⟩ := h
  exact le_trans (mul_nonneg hq.nonneg (pow_nonneg one_sub_ulp_pos.le k)) hle

theorem notNegative (h : Rounded k x v) : NotNegative x := by
  obtain ⟨q, hq, -⟩ := h
  exact hq.notNegative

theorem mono {n : ℕ} (h : Rounded k x v) (hk : k ≤ n) : Rounded n x v := by
  have hv := h.nonneg
  obtain ⟨q, hq, hlow, hhigh⟩ := h
  have hpow : (1 - ulp) ^ n ≤ (1 - ulp) ^ k :=
    pow_le_pow_of_le_one one_sub_ulp_pos.le (by linarith [ulp_pos]) hk
  exact ⟨q, hq, le_trans (mul_le_mul_of_nonneg_left hpow hv) hlow,
    le_trans (mul_le_mul_of_nonneg_left hpow hq.nonneg) hhigh⟩

theorem add (hx : Rounded k x v) (hy : Rounded k y w) (h : HasValue (x + y) r) :
    Rounded (k + 1) (x + y) (v + w) := by
  obtain ⟨a, ha, haLow, haHigh⟩ := hx
  obtain ⟨b, hb, hbLow, hbHigh⟩ := hy
  have hpow : 0 ≤ (1 - ulp) ^ k := pow_nonneg one_sub_ulp_pos.le k
  obtain ⟨hlow, hhigh⟩ := near_of_abs_sub_le (add_nonneg ha.nonneg hb.nonneg)
    (ha.abs_add_sub_le hb h)
  refine ⟨r, h, ?_, ?_⟩
  · calc (v + w) * (1 - ulp) ^ (k + 1) =
          (v * (1 - ulp) ^ k + w * (1 - ulp) ^ k) * (1 - ulp) := by ring
      _ ≤ (a + b) * (1 - ulp) :=
          mul_le_mul_of_nonneg_right (add_le_add haLow hbLow) one_sub_ulp_pos.le
      _ ≤ r := hlow
  · calc r * (1 - ulp) ^ (k + 1) = r * (1 - ulp) * (1 - ulp) ^ k := by ring
      _ ≤ (a + b) * (1 - ulp) ^ k := mul_le_mul_of_nonneg_right hhigh hpow
      _ = a * (1 - ulp) ^ k + b * (1 - ulp) ^ k := by ring
      _ ≤ v + w := add_le_add haHigh hbHigh

/-- A finite sum is off by one rounding more for each of its terms. -/
theorem foldl_add {β : Type} {f : β → Float} {g : β → ℚ} {l : List β} (hx : Rounded k x v)
    (hf : ∀ b ∈ l, Rounded k (f b) (g b)) (h : HasValue (l.foldl (fun sum b => sum + f b) x) r) :
    Rounded (k + l.length) (l.foldl (fun sum b => sum + f b) x) (v + (l.map g).sum) := by
  induction l generalizing x v k with
  | nil => simpa using hx
  | cons b rest ih =>
    have hb := hf b List.mem_cons_self
    have hrest : ∀ c ∈ rest, Rounded k (f c) (g c) := fun c hc => hf c (List.mem_cons_of_mem _ hc)
    obtain ⟨⟨s, hs, -⟩, -⟩ := HasValue.of_foldl_add (x := x + f b) h
      (fun c hc => (hrest c hc).notNegative) (hx.notNegative.add hb.notNegative)
    have hlength : k + (b :: rest).length = k + 1 + rest.length := by
      rw [List.length_cons]
      omega
    rw [hlength, List.map_cons, List.sum_cons, ← add_assoc]
    exact ih (hx.add hb hs) (fun c hc => (hrest c hc).mono (Nat.le_succ k)) h

theorem bounds (h : Rounded k x v) (hx : HasValue x a) :
    v * (1 - k * ulp) ≤ a ∧ a * (1 - k * ulp) ≤ v := by
  have hv := h.nonneg
  obtain ⟨q, hq, hlow, hhigh⟩ := h
  obtain rfl := Measures.unique hx hq
  have hbernoulli : 1 - k * ulp ≤ (1 - ulp) ^ k := by
    have := one_add_mul_le_pow (a := -ulp) (by linarith [ulp_lt_one]) k
    rwa [mul_neg, ← sub_eq_add_neg, ← sub_eq_add_neg] at this
  exact ⟨le_trans (mul_le_mul_of_nonneg_left hbernoulli hv) hlow,
    le_trans (mul_le_mul_of_nonneg_left hbernoulli hq.nonneg) hhigh⟩

end Rounded

end Sums

section Bounds

variable {β : Type} {f : β → Float} {l : List β} {x : Float} {a : ℚ} {j k : ℕ}

theorem HasValue.exists_foldl_le (hx : HasValue x a) (ha : a ≤ j * 2 ^ k)
    (hf : ∀ b ∈ l, ∃ q, HasValue (f b) q ∧ q ≤ 2 ^ k) (hl : j + l.length < 2 ^ 53)
    (hk : k + 53 < 1024) :
    ∃ q, HasValue (l.foldl (fun sum b => sum + f b) x) q ∧ q ≤ (j + l.length : ℕ) * 2 ^ k := by
  induction l generalizing x a j with
  | nil => exact ⟨a, hx, ha⟩
  | cons b rest ih =>
    obtain ⟨q, hq, hle⟩ := hf b List.mem_cons_self
    rw [List.length_cons] at hl ⊢
    have hsize : j + 1 < 2 ^ 53 := by omega
    have hlimit : ((j + 1 : ℕ) : ℚ) * 2 ^ k < limit Format.binary64 :=
      calc ((j + 1 : ℕ) : ℚ) * 2 ^ k < 2 ^ 53 * 2 ^ k :=
            mul_lt_mul_of_pos_right (by exact_mod_cast hsize) (by positivity)
        _ = 2 ^ (53 + k) := (pow_add 2 53 k).symm
        _ < limit Format.binary64 := two_pow_lt_limit (by omega)
    have hterm : a + q ≤ ((j + 1 : ℕ) : ℚ) * 2 ^ k := by
      rw [Nat.cast_add_one, add_mul, one_mul]
      exact add_le_add ha hle
    obtain ⟨r, hr, hrle⟩ := (hx.add hq).exists_le (short_natCast_mul hsize k) hlimit hterm
    have hsum := ih hr hrle (fun c hc => hf c (List.mem_cons_of_mem _ hc)) (by omega)
    rwa [Nat.add_assoc, Nat.add_comm 1] at hsum

end Bounds

section Parts

variable {x y : Float} {a : ℚ}

theorem short_sub_floor (h : Short Format.binary64 a) : Short Format.binary64 (a - ⌊a⌋₊) := by
  obtain ⟨m, e, hm, he, rfl⟩ := h
  rw [natCast_floor_eq_intCast_floor (by positivity), Int.self_sub_floor]
  rcases le_or_gt 0 e with h0 | h0
  · obtain ⟨n, rfl⟩ := Int.eq_ofNat_of_zero_le h0
    have hwhole : (m : ℚ) * 2 ^ (n : ℤ) = (m * 2 ^ n : ℕ) := by
      rw [zpow_natCast]
      push_cast
      rfl
    rw [hwhole, Int.fract_natCast]
    exact short_zero
  · obtain ⟨n, rfl⟩ := Int.exists_eq_neg_ofNat h0.le
    have hquotient (k : ℕ) : (k : ℚ) * 2 ^ (-(n : ℤ)) = k / (2 ^ n : ℕ) := by
      rw [zpow_neg, zpow_natCast, ← div_eq_mul_inv]
      push_cast
      rfl
    rw [hquotient, Int.fract_div_natCast_eq_div_natCast_mod, ← hquotient]
    exact ⟨m % 2 ^ n, -n, lt_of_le_of_lt (Nat.mod_le _ _) hm, he, rfl⟩

theorem HasValue.sub_floor (hx : HasValue x a) (hy : HasValue y ⌊a⌋₊) :
    HasValue (x - y) (a - ⌊a⌋₊) := by
  refine (hx.sub hy (Nat.floor_le hx.nonneg)).exact (short_sub_floor (Measures.short hx)) ?_
  refine lt_trans (b := 1) (by linarith [Nat.lt_floor_add_one a]) ?_
  simpa using two_pow_lt_limit (k := 0) (by norm_num)

end Parts

end Double

end VectorDisplay
