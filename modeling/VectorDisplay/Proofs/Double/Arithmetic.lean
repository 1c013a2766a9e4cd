import VectorDisplay.Proofs.Double.Packing
set_option autoImplicit false

namespace VectorDisplay

open Float.Model (Format UnpackedFloat totalExponent)
open Float.Model.UnpackedFloat

namespace Double

variable {spec : Format}

/-- The value of a number that is not negative. -/
inductive Measures (spec : Format) : UnpackedFloat → ℚ → Prop where
  | zero (s : Sign) : Measures spec (.zero s) 0
  | finite {m : ℕ} {e : ℤ} (hm : 0 < m) (h : Canonical spec m e) :
      Measures spec (.finite .positive m e hm) (m * 2 ^ e)

def limit (spec : Format) : ℚ :=
  2 ^ spec.mantissaBitsWithoutImplicit * 2 ^ (maxExponent spec + 1)

/-- The outcome of an operation whose exact result is `v`. -/
def Nearest (spec : Format) (v : ℚ) (u : UnpackedFloat) : Prop :=
  ∃ r, Rounds spec v r ∧ (Measures spec u r ∨ (u = .infinity .positive ∧ limit spec ≤ r))

variable {u v : UnpackedFloat} {x y : ℚ}

namespace Measures

theorem nonneg (h : Measures spec u x) : 0 ≤ x := by
  cases h with
  | zero => exact le_rfl
  | finite hm h => positivity

theorem short (h : Measures spec u x) : Short spec x := by
  cases h with
  | zero => exact short_zero
  | finite hm h => exact h.short

end Measures

theorem nearest_ofParts {k : ℕ} {t : ℤ} (hbias : 0 < spec.exponentBias) (h : Canonical spec k t)
    (hv : Rounds spec x (k * 2 ^ t)) :
    Nearest spec x (unpack spec (pack spec (ofParts .positive k t))) := by
  refine ⟨k * 2 ^ t, hv, ?_⟩
  by_cases hk : k = 0
  · left
    have hzero : unpack spec (pack spec (.zero .positive)) = .zero .positive :=
      unpack_packedZero .positive
    simp only [ofParts, hk, dite_true, hzero, Nat.cast_zero, zero_mul]
    exact .zero _
  · have hpos := Nat.pos_of_ne_zero hk
    simp only [ofParts, hk, dite_false]
    rcases le_or_gt t (maxExponent spec) with ht | ht
    · left
      rw [unpack_pack_finite _ hpos h ht]
      exact .finite hpos h
    · right
      refine ⟨unpack_pack_overflow _ hpos ht, ?_⟩
      have hleast : t ≠ spec.minExponent := by
        have := minExponent_eq spec
        rw [maxExponent] at ht
        omega
      have hfull : (2 : ℚ) ^ spec.mantissaBitsWithoutImplicit ≤ k := by
        exact_mod_cast h.full.resolve_right hleast
      have hpow : (2 : ℚ) ^ (maxExponent spec + 1) ≤ 2 ^ t :=
        zpow_le_zpow_right₀ (by norm_num) (by omega)
      exact mul_le_mul hfull hpow (two_zpow_pos _).le (by positivity)

theorem nearest_zero (s : Sign) : Nearest spec 0 (unpack spec (pack spec (.zero s))) :=
  ⟨0, .self short_zero, .inl (by
    have hzero : unpack spec (pack spec (.zero s)) = .zero s := unpack_packedZero s
    rw [hzero]
    exact .zero s)⟩

theorem Measures.nearest (hbias : 0 < spec.exponentBias) (h : Measures spec u x) :
    Nearest spec x (unpack spec (pack spec u)) := by
  cases h with
  | zero s => exact nearest_zero s
  | @finite m e hm h =>
    have hparts : ofParts .positive m e = .finite .positive m e hm := dif_neg hm.ne'
    rw [← hparts]
    exact nearest_ofParts hbias h (.self h.short)

theorem nearest_ofNat (hbias : 0 < spec.exponentBias) (n : ℕ) :
    Nearest spec n (unpack spec (pack spec (UnpackedFloat.ofNat spec n))) := by
  obtain ⟨k, t, hnormal, hcanonical, hvalue⟩ := normalize_natCast spec n 0
  rw [zpow_zero, mul_one] at hvalue
  simp only [UnpackedFloat.ofNat, UnpackedFloat.ofInt, hnormal]
  exact nearest_ofParts hbias hcanonical hvalue

theorem decreaseExponent_value (m : ℕ) {e t : ℤ} (ht : t ≤ e) :
    ((decreaseExponent m e t).1 : ℚ) * 2 ^ t = m * 2 ^ e := by
  obtain ⟨n, rfl⟩ := Int.le.dest ht
  have hn : (t + (n : ℤ) - t).toNat = n := by omega
  simp only [decreaseExponent, hn, Nat.shiftLeft_eq, two_zpow_add, zpow_natCast]
  push_cast
  ring

theorem Measures.add (hbias : 0 < spec.exponentBias) (hu : Measures spec u x)
    (hv : Measures spec v y) :
    Nearest spec (x + y) (unpack spec (pack spec (UnpackedFloat.add spec u v))) := by
  cases hu with
  | zero s =>
    rw [zero_add]
    cases hv with
    | zero s' =>
      simp only [UnpackedFloat.add]
      split
      · exact nearest_zero s
      · exact nearest_zero .positive
    | finite hm h => exact (Measures.finite hm h).nearest hbias
  | @finite m e hm h =>
    cases hv with
    | zero s' =>
      rw [add_zero]
      exact (Measures.finite hm h).nearest hbias
    | @finite m' e' hm' h' =>
      have hm := decreaseExponent_value m (min_le_left e e')
      have hm' := decreaseExponent_value m' (min_le_right e e')
      simp only [UnpackedFloat.add, Sign.apply]
      obtain ⟨k, t, hnormal, hcanonical, hvalue⟩ := normalize_natCast spec
        ((decreaseExponent m e (min e e')).1 + (decreaseExponent m' e' (min e e')).1) (min e e')
      push_cast at hnormal hvalue
      rw [add_mul, hm, hm'] at hvalue
      rw [hnormal]
      exact nearest_ofParts hbias hcanonical hvalue

theorem Measures.sub (hbias : 0 < spec.exponentBias) (hu : Measures spec u x)
    (hv : Measures spec v y) (hle : y ≤ x) :
    Nearest spec (x - y) (unpack spec (pack spec (UnpackedFloat.sub spec u v))) := by
  cases hu with
  | zero s =>
    cases hv with
    | zero s' =>
      rw [sub_zero]
      simp only [UnpackedFloat.sub]
      split
      · exact nearest_zero s
      · exact nearest_zero .positive
    | @finite m e hm h =>
      have : (0 : ℚ) < m * 2 ^ e := mul_pos (by exact_mod_cast hm) (two_zpow_pos e)
      linarith
  | @finite m e hm h =>
    cases hv with
    | zero s' =>
      rw [sub_zero]
      exact (Measures.finite hm h).nearest hbias
    | @finite m' e' hm' h' =>
      have hm := decreaseExponent_value m (min_le_left e e')
      have hm' := decreaseExponent_value m' (min_le_right e e')
      have hge : (decreaseExponent m' e' (min e e')).1 ≤ (decreaseExponent m e (min e e')).1 := by
        rw [← hm, ← hm'] at hle
        exact_mod_cast le_of_mul_le_mul_right hle (two_zpow_pos _)
      simp only [UnpackedFloat.sub, Sign.apply]
      obtain ⟨k, t, hnormal, hcanonical, hvalue⟩ := normalize_natCast spec
        ((decreaseExponent m e (min e e')).1 - (decreaseExponent m' e' (min e e')).1) (min e e')
      push_cast [Nat.cast_sub hge] at hnormal hvalue
      rw [sub_mul, hm, hm'] at hvalue
      rw [hnormal]
      exact nearest_ofParts hbias hcanonical hvalue

theorem mul_has_every_bit {m m' : ℕ} {e e' : ℤ} (hm : 0 < m) (hm' : 0 < m')
    (h : Canonical spec m e) (h' : Canonical spec m' e') :
    e + e' ≤ spec.targetExponent (totalExponent (m * m') (e + e')) := by
  have hmin := minExponent_eq spec
  have hbits := spec.hm
  have hpos := Nat.mul_pos hm hm'
  rw [targetExponent_add]
  by_cases hlow : 2 ^ spec.mantissaBitsWithoutImplicit ≤ m * m'
  · have := (Nat.le_log2 hpos.ne').2 hlow
    omega
  · have hleast : e = spec.minExponent := by
      refine h.full.resolve_left fun hfull => hlow ?_
      exact le_trans hfull (Nat.le_mul_of_pos_right m hm')
    have hleast' : e' = spec.minExponent := by
      refine h'.full.resolve_left fun hfull => hlow ?_
      exact le_trans hfull (Nat.le_mul_of_pos_left m' hm)
    omega

theorem Measures.mul (hbias : 0 < spec.exponentBias) (hu : Measures spec u x)
    (hv : Measures spec v y) :
    Nearest spec (x * y) (unpack spec (pack spec (UnpackedFloat.mul spec u v))) := by
  cases hu with
  | zero s =>
    rw [zero_mul]
    cases hv <;> exact nearest_zero _
  | @finite m e hm h =>
    cases hv with
    | zero s' =>
      rw [mul_zero]
      exact nearest_zero _
    | @finite m' e' hm' h' =>
      obtain ⟨k, t, hround, hcanonical, hvalue⟩ := roundWithAccuracy_eq spec .positive
        (StandsFor.exact (m * m')) (mul_has_every_bit hm hm' h h')
      have hx : ((m * m' : ℕ) : ℚ) * 2 ^ (e + e') = m * 2 ^ e * (m' * 2 ^ e') := by
        rw [two_zpow_add]
        push_cast
        ring
      rw [hx] at hvalue
      simp only [UnpackedFloat.mul]
      change Nearest spec _ (unpack spec (pack spec
        (roundWithAccuracy spec .positive (m * m') (e + e') .exact)))
      rw [hround]
      exact nearest_ofParts hbias hcanonical hvalue

theorem standsFor_div (m : ℕ) {d : ℕ} (hd : 0 < d) :
    StandsFor (.ofMantissaAndAccuracy (m / d) (accuracyOfFraction (m % d) d)) (m / d : ℚ) := by
  have hdq : (0 : ℚ) < d := by exact_mod_cast hd
  have hm : (m : ℚ) = d * (m / d : ℕ) + (m % d : ℕ) := by exact_mod_cast (Nat.div_add_mod m d).symm
  have hx : (m / d : ℚ) = (m / d : ℕ) + (m % d : ℕ) / d := by
    rw [hm]
    field_simp
  have hlt : ((m % d : ℕ) : ℚ) / d < 1 := by
    rw [div_lt_one hdq]
    exact_mod_cast Nat.mod_lt m hd
  have hge : (0 : ℚ) ≤ (m % d : ℕ) / d := by positivity
  rw [hx]
  by_cases hzero : m % d = 0
  · simp only [accuracyOfFraction, hzero, if_true, Nat.cast_zero, zero_div, add_zero]
    exact .exact _
  · simp only [accuracyOfFraction, hzero, if_false]
    rcases hcompare : compare (2 * (m % d)) d with _ | _ | _
    · have hhalf : ((m % d : ℕ) : ℚ) / d < 1 / 2 := by
        rw [div_lt_div_iff₀ hdq (by norm_num)]
        have := Nat.compare_eq_lt.1 hcompare
        have : (2 : ℚ) * (m % d : ℕ) < d := by exact_mod_cast this
        linarith
      constructor <;> simp [ExtendedMantissa.ofMantissaAndAccuracy] <;> linarith
    · have hhalf : ((m % d : ℕ) : ℚ) / d = 1 / 2 := by
        rw [div_eq_div_iff hdq.ne' (by norm_num)]
        have := Nat.compare_eq_eq.1 hcompare
        have : (2 : ℚ) * (m % d : ℕ) = d := by exact_mod_cast this
        linarith
      constructor <;> simp [ExtendedMantissa.ofMantissaAndAccuracy] <;> linarith
    · have hhalf : 1 / 2 < ((m % d : ℕ) : ℚ) / d := by
        rw [div_lt_div_iff₀ (by norm_num) hdq]
        have := Nat.compare_eq_gt.1 hcompare
        have : (d : ℚ) < 2 * (m % d : ℕ) := by exact_mod_cast this
        linarith
      constructor <;> simp [ExtendedMantissa.ofMantissaAndAccuracy] <;> linarith

/-- Division lengthens the dividend until the quotient has every bit that it needs. -/
theorem div_has_every_bit {m m' n : ℕ} {t : ℤ} (hm : 0 < m) (hm' : 0 < m')
    (hbits : m'.log2 + spec.mantissaBits ≤ m.log2 + n ∨ t ≤ spec.minExponent) :
    t ≤ spec.targetExponent (totalExponent (m * 2 ^ n / m') t) := by
  rw [targetExponent_add]
  rcases hbits with hbits | hleast
  · have hlow : 2 ^ spec.mantissaBitsWithoutImplicit ≤ m * 2 ^ n / m' := by
      rw [Nat.le_div_iff_mul_le hm']
      calc 2 ^ spec.mantissaBitsWithoutImplicit * m'
          ≤ 2 ^ spec.mantissaBitsWithoutImplicit * 2 ^ (m'.log2 + 1) :=
            Nat.mul_le_mul_left _ (Nat.lt_log2_self).le
        _ = 2 ^ (m'.log2 + spec.mantissaBits) := by
            rw [← Nat.pow_add, Format.mantissaBits]
            congr 1
            omega
        _ ≤ 2 ^ (m.log2 + n) := Nat.pow_le_pow_right (by norm_num) hbits
        _ = 2 ^ m.log2 * 2 ^ n := Nat.pow_add ..
        _ ≤ m * 2 ^ n := Nat.mul_le_mul_right _ (Nat.log2_self_le hm.ne')
    have hpos := Nat.two_pow_pos spec.mantissaBitsWithoutImplicit
    have := (Nat.le_log2 (by omega)).2 hlow
    omega
  · omega

theorem Measures.div (hbias : 0 < spec.exponentBias) (hu : Measures spec u x)
    (hv : Measures spec v y) (hy : 0 < y) :
    Nearest spec (x / y) (unpack spec (pack spec (UnpackedFloat.div spec u v))) := by
  cases hv with
  | zero s => exact absurd hy (lt_irrefl 0)
  | @finite m' e' hm' h' =>
    cases hu with
    | zero s =>
      rw [zero_div]
      exact nearest_zero _
    | @finite m e hm h =>
      obtain ⟨t, ht⟩ : ∃ t, min (e - e')
          (spec.targetExponent (totalExponent m e - totalExponent m' e')) = t := ⟨_, rfl⟩
      obtain ⟨n, hn⟩ := Int.le.dest (show t ≤ e - e' by omega)
      have hshift : (e - e' - t).toNat = n := by omega
      have hbits : m'.log2 + spec.mantissaBits ≤ m.log2 + n ∨ t ≤ spec.minExponent := by
        simp only [Format.targetExponent, totalExponent] at ht
        omega
      have hquotient : (m * 2 ^ n : ℕ) / m' * (2 : ℚ) ^ t = m * 2 ^ e / (m' * 2 ^ e') := by
        have he : (2 : ℚ) ^ e = 2 ^ n * 2 ^ t * 2 ^ e' := by
          rw [← zpow_natCast, ← two_zpow_add, ← two_zpow_add]
          congr 1
          omega
        have hm'q : (m' : ℚ) ≠ 0 := by exact_mod_cast hm'.ne'
        have he' := (two_zpow_pos e').ne'
        rw [he]
        push_cast
        field_simp
      obtain ⟨k, t', hround, hcanonical, hvalue⟩ := roundWithAccuracy_eq spec .positive
        (standsFor_div (m * 2 ^ n) hm') (div_has_every_bit hm hm' hbits)
      rw [hquotient] at hvalue
      simp only [UnpackedFloat.div, divCore, ht, hshift, Nat.shiftLeft_eq]
      change Nearest spec _ (unpack spec (pack spec
        (roundWithAccuracy spec .positive (m * 2 ^ n / m') t
          (accuracyOfFraction (m * 2 ^ n % m') m'))))
      rw [hround]
      exact nearest_ofParts hbias hcanonical hvalue

end Double

end VectorDisplay
