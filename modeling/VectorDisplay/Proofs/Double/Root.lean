import VectorDisplay.Proofs.Double.Error
set_option autoImplicit false

namespace VectorDisplay

open Float.Model (Format UnpackedFloat totalExponent)
open Float.Model.UnpackedFloat

namespace Double

section Format

variable {spec : Format} {u : UnpackedFloat} {x : ℚ}

theorem exists_standsFor (m : ℕ) (accuracy : Accuracy) :
    ∃ w : ℚ, m ≤ w ∧ w ≤ m + 1 ∧ StandsFor (.ofMantissaAndAccuracy m accuracy) w := by
  cases accuracy with
  | exact => exact ⟨m, le_rfl, by linarith, .exact m⟩
  | inexact o =>
    cases o with
    | lt =>
      refine ⟨m + 1 / 4, by linarith, by linarith, ?_⟩
      constructor <;> norm_num [ExtendedMantissa.ofMantissaAndAccuracy]
    | eq =>
      refine ⟨m + 1 / 2, by linarith, by linarith, ?_⟩
      constructor <;> norm_num [ExtendedMantissa.ofMantissaAndAccuracy]
    | gt =>
      refine ⟨m + 3 / 4, by linarith, by linarith, ?_⟩
      constructor <;> simp [ExtendedMantissa.ofMantissaAndAccuracy] <;> linarith

theorem two_pow_le_sqrt {m : ℕ} (hm : 0 < m) (n : ℕ) :
    2 ^ ((m.log2 + n) / 2) ≤ Nat.sqrt (m * 2 ^ n) := by
  rw [Nat.le_sqrt, ← Nat.pow_add]
  calc 2 ^ ((m.log2 + n) / 2 + (m.log2 + n) / 2) ≤ 2 ^ (m.log2 + n) :=
        Nat.pow_le_pow_right (by norm_num) (by omega)
    _ = 2 ^ m.log2 * 2 ^ n := Nat.pow_add ..
    _ ≤ m * 2 ^ n := Nat.mul_le_mul_right _ (Nat.log2_self_le hm.ne')

theorem nonneg_exponent_of_one_le {m : ℕ} {e : ℤ} (h : (1 : ℚ) ≤ m * 2 ^ e) :
    0 ≤ (m.log2 : ℤ) + e := by
  by_contra hneg
  have hm : (m : ℚ) < 2 ^ (m.log2 + 1) := by exact_mod_cast Nat.lt_log2_self
  have hsmall : (m : ℚ) * 2 ^ e < 1 := by
    calc (m : ℚ) * 2 ^ e < 2 ^ (m.log2 + 1) * 2 ^ e := mul_lt_mul_of_pos_right hm (two_zpow_pos e)
      _ = 2 ^ ((m.log2 + 1 : ℕ) + e : ℤ) := by rw [two_zpow_add, zpow_natCast]
      _ ≤ 2 ^ (0 : ℤ) := zpow_le_zpow_right₀ (by norm_num) (by push_cast; omega)
      _ = 1 := zpow_zero _
  linarith

theorem two_pow_le_root (hbias : 0 < spec.exponentBias) {m n : ℕ} {e t : ℤ} (hm : 0 < m)
    (hsize : 0 ≤ (m.log2 : ℤ) + e)
    (ht : t ≤ spec.targetExponent ((totalExponent m e + 1) / 2)) (hn : 2 * t + n = e) :
    2 ^ spec.mantissaBitsWithoutImplicit ≤ Nat.sqrt (m * 2 ^ n) := by
  refine le_trans (Nat.pow_le_pow_right (by norm_num) ?_) (two_pow_le_sqrt hm n)
  have hmin := minExponent_eq spec
  rw [totalExponent, Format.targetExponent, Format.mantissaBits] at ht
  omega

/-- The whole part of a root, and what is up to one more, are as near to the root as the whole part is
large. -/
theorem sq_near_of_sqrt {n k : ℕ} {w : ℚ} (hk : 0 < k) (hfull : k ≤ Nat.sqrt n)
    (hlow : Nat.sqrt n ≤ w) (hhigh : w ≤ Nat.sqrt n + 1) :
    w ^ 2 ≤ (1 + 1 / k) ^ 2 * n ∧ n ≤ (1 + 1 / k) ^ 2 * w ^ 2 := by
  have hroot : (Nat.sqrt n : ℚ) ^ 2 ≤ n := by exact_mod_cast Nat.sqrt_le' n
  have hnext : (n : ℚ) ≤ (Nat.sqrt n + 1) ^ 2 := by exact_mod_cast (Nat.lt_succ_sqrt' n).le
  have hkq : (0 : ℚ) < k := by exact_mod_cast hk
  have hstep : (Nat.sqrt n : ℚ) + 1 ≤ (1 + 1 / k) * Nat.sqrt n := by
    have hone : (1 : ℚ) ≤ 1 / k * Nat.sqrt n := by
      rw [one_div_mul_eq_div, le_div_iff₀ hkq, one_mul]
      exact_mod_cast hfull
    linarith
  have hnonneg : (0 : ℚ) ≤ Nat.sqrt n := Nat.cast_nonneg _
  constructor
  · calc w ^ 2 ≤ ((1 + 1 / k) * Nat.sqrt n) ^ 2 :=
          pow_le_pow_left₀ (hnonneg.trans hlow) (hhigh.trans hstep) 2
      _ = (1 + 1 / k) ^ 2 * (Nat.sqrt n : ℚ) ^ 2 := mul_pow _ _ 2
      _ ≤ (1 + 1 / k) ^ 2 * n := mul_le_mul_of_nonneg_left hroot (sq_nonneg _)
  · calc (n : ℚ) ≤ (Nat.sqrt n + 1) ^ 2 := hnext
      _ ≤ ((1 + 1 / k) * Nat.sqrt n) ^ 2 := pow_le_pow_left₀ (by positivity) hstep 2
      _ = (1 + 1 / k) ^ 2 * (Nat.sqrt n : ℚ) ^ 2 := mul_pow _ _ 2
      _ ≤ (1 + 1 / k) ^ 2 * w ^ 2 :=
          mul_le_mul_of_nonneg_left (pow_le_pow_left₀ hnonneg hlow 2) (sq_nonneg _)

/-- The root of what is at least one is rounded from a number that is at least one, too, and off by no more
than the last place of a mantissa. -/
theorem Measures.exists_sqrt (hbias : 0 < spec.exponentBias) (hu : Measures spec u x) (hx : 1 ≤ x) :
    ∃ v, 1 ≤ v ∧ v ^ 2 ≤ (1 + 1 / (2 ^ spec.mantissaBitsWithoutImplicit : ℕ)) ^ 2 * x ∧
      x ≤ (1 + 1 / (2 ^ spec.mantissaBitsWithoutImplicit : ℕ)) ^ 2 * v ^ 2 ∧
      Nearest spec v (unpack spec (pack spec (UnpackedFloat.sqrt spec u))) := by
  cases hu with
  | zero s => exact absurd hx (by norm_num)
  | @finite m e hm h =>
    obtain ⟨t, ht⟩ : ∃ t, min (e.ediv 2)
        (spec.targetExponent ((totalExponent m e + 1).ediv 2)) = t := ⟨_, rfl⟩
    have hhalf : e.ediv 2 = e / 2 := rfl
    have hhalf' : (totalExponent m e + 1).ediv 2 = (totalExponent m e + 1) / 2 := rfl
    obtain ⟨n, hn⟩ := Int.le.dest (show 2 * t ≤ e by omega)
    have hshift : (e - 2 * t).toNat = n := by omega
    have hsize := nonneg_exponent_of_one_le hx
    have hfull := two_pow_le_root hbias hm hsize (ht ▸ min_le_right _ _) hn
    have hlog : (m.log2 + n) / 2 ≤ (Nat.sqrt (m * 2 ^ n)).log2 :=
      (Nat.le_log2 (lt_of_lt_of_le (Nat.two_pow_pos _) hfull).ne').2 (two_pow_le_sqrt hm n)
    have hbits : t ≤ spec.targetExponent (totalExponent (Nat.sqrt (m * 2 ^ n)) t) := by
      rw [hhalf', totalExponent, Format.targetExponent, Format.mantissaBits] at ht
      rw [targetExponent_add]
      omega
    simp only [UnpackedFloat.sqrt, sqrtCore, ht, hshift, Nat.shiftLeft_eq]
    obtain ⟨w, hw, hw', hstands⟩ := exists_standsFor (Nat.sqrt (m * 2 ^ n))
      (if m * 2 ^ n - Nat.sqrt (m * 2 ^ n) * Nat.sqrt (m * 2 ^ n) = 0 then .exact
        else .inexact (if m * 2 ^ n - Nat.sqrt (m * 2 ^ n) * Nat.sqrt (m * 2 ^ n) ≤
          Nat.sqrt (m * 2 ^ n) then .lt else .gt))
    obtain ⟨k, t', hround, hcanonical, hvalue⟩ := roundWithAccuracy_eq spec .positive hstands hbits
    rw [hround]
    have hone : (1 : ℚ) ≤ w * 2 ^ t := by
      have hroot : (2 : ℚ) ^ ((m.log2 + n) / 2) ≤ Nat.sqrt (m * 2 ^ n) := by
        exact_mod_cast two_pow_le_sqrt hm n
      calc (1 : ℚ) = 2 ^ (0 : ℤ) := (zpow_zero _).symm
        _ ≤ 2 ^ (((m.log2 + n) / 2 : ℕ) + t : ℤ) :=
            zpow_le_zpow_right₀ (by norm_num) (by omega)
        _ = 2 ^ ((m.log2 + n) / 2) * 2 ^ t := by rw [two_zpow_add, zpow_natCast]
        _ ≤ w * 2 ^ t := mul_le_mul_of_nonneg_right (hroot.trans hw) (two_zpow_pos t).le
    have hx : (m : ℚ) * 2 ^ e = (m * 2 ^ n : ℕ) * (2 ^ t) ^ 2 := by
      have hpow : (2 : ℚ) ^ e = 2 ^ n * (2 ^ t) ^ 2 := by
        rw [← zpow_natCast, ← zpow_natCast, ← zpow_mul, ← two_zpow_add]
        congr 1
        push_cast
        omega
      rw [hpow]
      push_cast
      ring
    obtain ⟨hsquare, hsquare'⟩ := sq_near_of_sqrt (Nat.two_pow_pos _) hfull hw hw'
    have hunit : (0 : ℚ) ≤ (2 ^ t) ^ 2 := sq_nonneg _
    refine ⟨w * 2 ^ t, hone, ?_, ?_, nearest_ofParts hbias hcanonical hvalue⟩
    · rw [hx, mul_pow, ← mul_assoc]
      exact mul_le_mul_of_nonneg_right hsquare hunit
    · rw [hx, mul_pow, ← mul_assoc]
      exact mul_le_mul_of_nonneg_right hsquare' hunit

theorem Measures.nearest_sqrt_zero (hu : Measures spec u x) (hx : x = 0) :
    Nearest spec 0 (unpack spec (pack spec (UnpackedFloat.sqrt spec u))) := by
  cases hu with
  | zero s => exact nearest_zero s
  | @finite m e hm h =>
    have : (0 : ℚ) < m * 2 ^ e := mul_pos (by exact_mod_cast hm) (two_zpow_pos e)
    exact absurd hx this.ne'

theorem mul_neg_neg (u : UnpackedFloat) :
    UnpackedFloat.mul spec u.neg u.neg = UnpackedFloat.mul spec u u := by
  have hsign (s : Sign) : -s * -s = s * s := by cases s <;> rfl
  cases u with
  | notANumber => rfl
  | infinity s => simp only [UnpackedFloat.neg, UnpackedFloat.mul, hsign]
  | zero s => simp only [UnpackedFloat.neg, UnpackedFloat.mul, hsign]
  | finite s m e hm => simp only [UnpackedFloat.neg, UnpackedFloat.mul, hsign]

end Format

section Integers

variable {x y : Float} {a : ℚ}

theorem HasValue.unpack_neg (h : HasValue x a) :
    (Float.neg x).toModel.unpack = x.toModel.unpack.neg := by
  have hunpack : (Float.neg x).toModel.unpack =
      unpack Format.binary64 (pack Format.binary64 x.toModel.unpack.neg) := rfl
  rw [hunpack]
  unfold HasValue at h
  cases hu : x.toModel.unpack with
  | notANumber =>
    rw [hu] at h
    cases h
  | infinity s =>
    rw [hu] at h
    cases h
  | zero s => exact unpack_packedZero (-s)
  | finite s m e hm =>
    obtain ⟨hcanonical, hmax⟩ := canonical_of_unpack bias_pos hu
    exact unpack_pack_finite (-s) hm hcanonical hmax

theorem nearest_ofInt_mul_self {i : ℤ} (hi : i.natAbs < 2 ^ 53) :
    Nearest Format.binary64 (i.natAbs * i.natAbs) (Float.ofInt i * Float.ofInt i).toModel.unpack := by
  cases i with
  | ofNat n =>
    have hn : HasValue (Float.ofNat n) n := hasValue_ofNat hi
    exact hn.mul hn
  | negSucc n =>
    have hn : HasValue (Float.ofNat (n + 1)) ((n + 1 : ℕ) : ℚ) := hasValue_ofNat hi
    have hsquare : (Float.ofInt (.negSucc n) * Float.ofInt (.negSucc n)).toModel.unpack =
        (Float.ofNat (n + 1) * Float.ofNat (n + 1)).toModel.unpack := by
      change unpack Format.binary64 (pack Format.binary64 (UnpackedFloat.mul Format.binary64
        (Float.neg (Float.ofNat (n + 1))).toModel.unpack
        (Float.neg (Float.ofNat (n + 1))).toModel.unpack)) = _
      rw [hn.unpack_neg, mul_neg_neg]
      rfl
    rw [hsquare]
    exact hn.mul hn

theorem exists_ofInt_mul_self {i : ℤ} (hlow : -2 ^ 31 ≤ i) (hhigh : i < 2 ^ 31) :
    ∃ q, HasValue (Float.ofInt i * Float.ofInt i) q ∧ q ≤ 2 ^ 62 ∧ (i = 0 → q = 0) ∧
      (i ≠ 0 → 1 ≤ q) := by
  have hsize : i.natAbs ≤ 2 ^ 31 := by omega
  have hnearest := nearest_ofInt_mul_self (i := i) (by omega)
  have hsquare : ((i.natAbs : ℚ) * i.natAbs) ≤ 2 ^ 62 := by
    have : i.natAbs * i.natAbs ≤ 2 ^ 31 * 2 ^ 31 := Nat.mul_le_mul hsize hsize
    exact_mod_cast this
  obtain ⟨q, hq, hle⟩ := hnearest.exists_le (short_two_pow 62) (two_pow_lt_limit (by norm_num))
    hsquare
  refine ⟨q, hq, hle, fun hi => ?_, fun hi => ?_⟩
  · refine le_antisymm ((hnearest.rounds hq).le_of_le short_zero ?_) hq.nonneg
    simp [hi]
  · refine (hnearest.rounds hq).ge_of_le short_one ?_
    have hone : 1 ≤ i.natAbs * i.natAbs := Nat.mul_pos (by omega) (by omega)
    exact_mod_cast hone

theorem rounded_ofInt_mul_self {i : ℤ} (hlow : -2 ^ 31 ≤ i) (hhigh : i < 2 ^ 31) :
    Rounded 1 (Float.ofInt i * Float.ofInt i) ((i : ℚ) ^ 2) := by
  obtain ⟨q, hq, -, hzero, -⟩ := exists_ofInt_mul_self hlow hhigh
  by_cases hi : i = 0
  · have hnone : (i : ℚ) ^ 2 = q := by simp [hzero hi, hi]
    rw [hnone]
    exact (Rounded.of_hasValue hq).mono zero_le_one
  · have hsquare : (i.natAbs : ℚ) * i.natAbs = (i : ℚ) ^ 2 := by
      rw [← sq, Nat.cast_natAbs, Int.cast_abs, sq_abs]
    have hrounds := (nearest_ofInt_mul_self (by omega)).rounds hq
    rw [hsquare] at hrounds
    have hone : 1 ≤ (i : ℚ) ^ 2 := by
      exact_mod_cast (one_le_sq_iff_one_le_abs i).2 (Int.one_le_abs hi)
    exact .of_abs_sub_le hq (sq_nonneg _) (hrounds.abs_sub_le_of_one_le hone)

end Integers

end Double

end VectorDisplay
