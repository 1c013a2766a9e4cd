import VectorDisplay.Platform
import VectorDisplay.Proofs.Double.Root
import VectorDisplay.Proofs.Drawing.Travel
/-!
Distances in doubles. A machine may find the side of a triangle in its own way, as long as it is off by
three roundings at most and never below one for points that differ. A root that is taken after squares
and their sum were rounded is one such way.
-/

set_option autoImplicit false

namespace VectorDisplay

open Double
open Float.Model (Format)

/-- Differences that fit 32 bits have a length whose square is off by six roundings at most. -/
class Hypot.Accurate [Hypot] : Prop where
  near {dx dy : ℤ} (hx : -2 ^ 31 ≤ dx ∧ dx < 2 ^ 31) (hy : -2 ^ 31 ≤ dy ∧ dy < 2 ^ 31) :
    ∃ q, HasValue (Hypot.hypot (Float.ofInt dx) (Float.ofInt dy)) q ∧
      ((dx : ℚ) ^ 2 + (dy : ℚ) ^ 2) * (1 - ulp) ^ 6 ≤ q ^ 2 ∧
      q ^ 2 * (1 - ulp) ^ 6 ≤ (dx : ℚ) ^ 2 + (dy : ℚ) ^ 2 ∧ (dx ≠ 0 ∨ dy ≠ 0 → 1 ≤ q)

namespace Point

section Accurate

def squares (a b : Point) : ℚ :=
  ((a.x.toInt - b.x.toInt : ℤ) : ℚ) ^ 2 + ((a.y.toInt - b.y.toInt : ℤ) : ℚ) ^ 2

theorem ne_or_ne_of_ne {a b : Point} (hne : a ≠ b) :
    a.x.toInt - b.x.toInt ≠ 0 ∨ a.y.toInt - b.y.toInt ≠ 0 := by
  by_contra hsame
  obtain ⟨hx, hy⟩ := not_or.1 hsame
  apply hne
  have hxEq : a.x = b.x := Int32.toInt_inj.1 (by omega)
  have hyEq : a.y = b.y := Int32.toInt_inj.1 (by omega)
  cases a
  cases b
  simp_all

theorem Reaches.squares_le {a b : Point} (h : a.Reaches b) : a.squares b ≤ 2 ^ 63 := by
  have hsquare {i : ℤ} (hi : -2 ^ 31 ≤ i ∧ i < 2 ^ 31) : ((i : ℚ) ^ 2) ≤ 2 ^ 62 := by
    have hsq : i ^ 2 ≤ (2 ^ 31) ^ 2 := sq_le_sq' hi.1 hi.2.le
    exact_mod_cast hsq
  calc a.squares b ≤ 2 ^ 62 + 2 ^ 62 := add_le_add (hsquare h.1) (hsquare h.2)
    _ = 2 ^ 63 := by norm_num

variable [Hypot] {a b : Point} {d : Float}

theorem reaches_of_distance (h : a.distance b = .ok d) : a.Reaches b := by
  by_contra hfar
  rw [distance_eq_error hfar] at h
  cases h

theorem eq_hypot_of_distance (h : a.distance b = .ok d) :
    d = Hypot.hypot (Float.ofInt (a.x.toInt - b.x.toInt))
      (Float.ofInt (a.y.toInt - b.y.toInt)) := by
  obtain ⟨⟨hxLow, hxHigh⟩, hyLow, hyHigh⟩ := reaches_of_distance h
  unfold distance at h
  rw [signedWord_eq_ok hxLow hxHigh, signedWord_eq_ok hyLow hyHigh] at h
  cases h
  rfl

variable [Hypot.Accurate]

theorem exists_near (h : a.distance b = .ok d) :
    ∃ q, HasValue d q ∧ a.squares b * (1 - ulp) ^ 6 ≤ q ^ 2 ∧
      q ^ 2 * (1 - ulp) ^ 6 ≤ a.squares b ∧ (a ≠ b → 1 ≤ q) := by
  obtain ⟨hx, hy⟩ := reaches_of_distance h
  obtain ⟨q, hq, hlow, hhigh, hone⟩ := Hypot.Accurate.near hx hy
  rw [← eq_hypot_of_distance h] at hq
  exact ⟨q, hq, hlow, hhigh, fun hne => hone (ne_or_ne_of_ne hne)⟩

theorem hasValue_distance (h : a.distance b = .ok d) :
    ∃ q, HasValue d q ∧ q ≤ 2 ^ 33 ∧ (a ≠ b → 1 ≤ q) := by
  obtain ⟨q, hq, -, hhigh, hone⟩ := exists_near h
  refine ⟨q, hq, le_of_sq_le_sq ?_ (by norm_num), hone⟩
  have hquarter : (1 / 4 : ℚ) ≤ (1 - ulp) ^ 6 := by norm_num [ulp]
  have hsquares := (reaches_of_distance h).squares_le
  nlinarith [sq_nonneg q]

theorem notNegative_of_distance (h : a.distance b = .ok d) : NotNegative d := by
  obtain ⟨q, hq, -⟩ := hasValue_distance h
  exact hq.notNegative

theorem sq_distance_near (h : a.distance b = .ok d) :
    a.squares b * (1 - ulp) ^ 6 ≤ value d ^ 2 ∧ value d ^ 2 * (1 - ulp) ^ 6 ≤ a.squares b := by
  obtain ⟨q, hq, hlow, hhigh, -⟩ := exists_near h
  rw [hq.value_eq]
  exact ⟨hlow, hhigh⟩

end Accurate

end Point

namespace Platform

section Errors

variable {x y : ℚ}

theorem mul_one_sub_sq_le (hy : 0 ≤ y) (h : x ≤ (1 + ulp) ^ 2 * y) : x * (1 - ulp) ^ 2 ≤ y := by
  have hback : (1 + ulp) ^ 2 * (1 - ulp) ^ 2 ≤ 1 := by
    rw [← mul_pow]
    refine pow_le_one₀ ?_ ?_
    · nlinarith [ulp_pos, ulp_lt_one]
    · nlinarith [ulp_pos]
  calc x * (1 - ulp) ^ 2 ≤ (1 + ulp) ^ 2 * y * (1 - ulp) ^ 2 :=
        mul_le_mul_of_nonneg_right h (sq_nonneg _)
    _ = y * ((1 + ulp) ^ 2 * (1 - ulp) ^ 2) := by ring
    _ ≤ y := mul_le_of_le_one_right hy hback

theorem sq_mul_one_sub_sq_le (hx : 0 ≤ x) (h : x * (1 - ulp) ≤ y) :
    x ^ 2 * (1 - ulp) ^ 2 ≤ y ^ 2 := by
  rw [← mul_pow]
  exact pow_le_pow_left₀ (mul_nonneg hx one_sub_ulp_pos.le) h 2

end Errors

section Root

variable {dx dy : ℤ} (hx : -2 ^ 31 ≤ dx ∧ dx < 2 ^ 31) (hy : -2 ^ 31 ≤ dy ∧ dy < 2 ^ 31)
include hx hy

theorem hasValue_hypot_zero (hdx : dx = 0) (hdy : dy = 0) :
    HasValue (Hypot.hypot (Float.ofInt dx) (Float.ofInt dy)) 0 := by
  obtain ⟨qx, hqx, -, hxzero, -⟩ := exists_ofInt_mul_self hx.1 hx.2
  obtain ⟨qy, hqy, -, hyzero, -⟩ := exists_ofInt_mul_self hy.1 hy.2
  have hlimit : (0 : ℚ) < limit Format.binary64 :=
    lt_trans one_pos (by simpa using two_pow_lt_limit (k := 0) (by norm_num))
  have hsum := hqx.add hqy
  rw [hxzero hdx, hyzero hdy, add_zero] at hsum
  exact (Measures.nearest_sqrt_zero (hsum.exact short_zero hlimit) rfl).exact short_zero hlimit

theorem exists_root (hne : dx ≠ 0 ∨ dy ≠ 0) :
    ∃ s v : ℚ, s ≤ 2 ^ 63 ∧ ((dx : ℚ) ^ 2 + (dy : ℚ) ^ 2) * (1 - ulp) ^ 2 ≤ s ∧
      s * (1 - ulp) ^ 2 ≤ (dx : ℚ) ^ 2 + (dy : ℚ) ^ 2 ∧
      1 ≤ v ∧ v ^ 2 * (1 - ulp) ^ 2 ≤ s ∧ s * (1 - ulp) ^ 2 ≤ v ^ 2 ∧
      Nearest Format.binary64 v
        (Hypot.hypot (Float.ofInt dx) (Float.ofInt dy)).toModel.unpack := by
  obtain ⟨qx, hqx, hxle, -, hxone⟩ := exists_ofInt_mul_self hx.1 hx.2
  obtain ⟨qy, hqy, hyle, -, hyone⟩ := exists_ofInt_mul_self hy.1 hy.2
  have hsum := hqx.add hqy
  obtain ⟨s, hs, hsle⟩ := hsum.exists_le (short_two_pow 63) (two_pow_lt_limit (by norm_num))
    (by linarith)
  have hsquares : 1 ≤ qx + qy := by
    have hx0 := hqx.nonneg
    have hy0 := hqy.nonneg
    rcases hne with hx | hy
    · linarith [hxone hx]
    · linarith [hyone hy]
  obtain ⟨q, hq, hlow, hhigh⟩ := (rounded_ofInt_mul_self hx.1 hx.2).add
    (rounded_ofInt_mul_self hy.1 hy.2) hs
  obtain rfl := Measures.unique hq hs
  obtain ⟨v, hv, hvle, hvge, hroot⟩ :=
    Measures.exists_sqrt bias_pos hs ((hsum.rounds hs).ge_of_le short_one hsquares)
  have hunit : (1 : ℚ) + 1 / (2 ^ Format.binary64.mantissaBitsWithoutImplicit : ℕ) = 1 + ulp := by
    have hbits : Format.binary64.mantissaBitsWithoutImplicit = 52 := rfl
    rw [hbits, ulp, zpow_neg]
    norm_num
  rw [hunit] at hvle hvge
  exact ⟨q, v, hsle, hlow, hhigh, hv, mul_one_sub_sq_le hs.nonneg hvle,
    mul_one_sub_sq_le (sq_nonneg v) hvge, hroot⟩

theorem hypot_near (hne : dx ≠ 0 ∨ dy ≠ 0) :
    ∃ q, HasValue (Hypot.hypot (Float.ofInt dx) (Float.ofInt dy)) q ∧
      ((dx : ℚ) ^ 2 + (dy : ℚ) ^ 2) * (1 - ulp) ^ 6 ≤ q ^ 2 ∧
      q ^ 2 * (1 - ulp) ^ 6 ≤ (dx : ℚ) ^ 2 + (dy : ℚ) ^ 2 ∧ 1 ≤ q := by
  obtain ⟨s, v, hs, hlow, hhigh, hv, hvlow, hvhigh, hroot⟩ := exists_root hx hy hne
  have hvle : v ≤ 2 ^ 33 := by
    refine le_of_sq_le_sq ?_ (by norm_num)
    have hquarter : (1 / 4 : ℚ) ≤ (1 - ulp) ^ 2 := by norm_num [ulp]
    nlinarith [sq_nonneg v]
  obtain ⟨q, hq, -⟩ := hroot.exists_le (short_two_pow 33) (two_pow_lt_limit (by norm_num)) hvle
  obtain ⟨hqlow, hqhigh⟩ := near_of_abs_sub_le (by linarith)
    ((hroot.rounds hq).abs_sub_le_of_one_le hv)
  have hc : 0 ≤ (1 - ulp) ^ 2 := sq_nonneg _
  have hv2 := sq_mul_one_sub_sq_le (by linarith) hqlow
  have hq2 := sq_mul_one_sub_sq_le hq.nonneg hqhigh
  refine ⟨q, hq, ?_, ?_, (hroot.rounds hq).ge_of_le short_one hv⟩
  · calc ((dx : ℚ) ^ 2 + (dy : ℚ) ^ 2) * (1 - ulp) ^ 6
        = ((dx : ℚ) ^ 2 + (dy : ℚ) ^ 2) * (1 - ulp) ^ 2 * (1 - ulp) ^ 2 * (1 - ulp) ^ 2 := by ring
      _ ≤ s * (1 - ulp) ^ 2 * (1 - ulp) ^ 2 := by gcongr
      _ ≤ v ^ 2 * (1 - ulp) ^ 2 := by gcongr
      _ ≤ q ^ 2 := hv2
  · calc q ^ 2 * (1 - ulp) ^ 6 = q ^ 2 * (1 - ulp) ^ 2 * (1 - ulp) ^ 2 * (1 - ulp) ^ 2 := by ring
      _ ≤ v ^ 2 * (1 - ulp) ^ 2 * (1 - ulp) ^ 2 := by gcongr
      _ ≤ s * (1 - ulp) ^ 2 := by gcongr
      _ ≤ (dx : ℚ) ^ 2 + (dy : ℚ) ^ 2 := hhigh

end Root

scoped instance root_accurate : Hypot.Accurate where
  near {dx dy} hx hy := by
    by_cases hzero : dx = 0 ∧ dy = 0
    · obtain ⟨rfl, rfl⟩ := hzero
      exact ⟨0, hasValue_hypot_zero hx hy rfl rfl, by simp, by simp, by simp⟩
    · have hne := not_and_or.1 hzero
      obtain ⟨q, hq, hlow, hhigh, hone⟩ := hypot_near hx hy hne
      exact ⟨q, hq, hlow, hhigh, fun _ => hone⟩

end Platform

end VectorDisplay
