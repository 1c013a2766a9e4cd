import VectorDisplay.Proofs.Double.Arithmetic
set_option autoImplicit false

namespace VectorDisplay

open Float.Model (Format UnpackedFloat totalExponent)
open Float.Model.UnpackedFloat

namespace Double

variable {spec : Format} {u v : UnpackedFloat} {x y : ℚ}

theorem Canonical.lt_of_exponent_lt {m m' : ℕ} {e e' : ℤ} (h : Canonical spec m e)
    (h' : Canonical spec m' e') (he : e < e') : (m : ℚ) * 2 ^ e < m' * 2 ^ e' := by
  have hleast : e' ≠ spec.minExponent := by
    have := h.le
    omega
  have hfull := h'.full.resolve_right hleast
  have hm : (m : ℚ) < 2 * m' := by
    have := h.lt
    rw [two_pow_mantissaBits] at this
    exact_mod_cast lt_of_lt_of_le this (Nat.mul_le_mul_left 2 hfull)
  have hstep : (2 : ℚ) ^ (e + 1) ≤ 2 ^ e' := zpow_le_zpow_right₀ (by norm_num) (by omega)
  calc (m : ℚ) * 2 ^ e < 2 * m' * 2 ^ e := mul_lt_mul_of_pos_right hm (two_zpow_pos e)
    _ = m' * 2 ^ (e + 1) := by rw [two_zpow_add, zpow_one]; ring
    _ ≤ m' * 2 ^ e' := mul_le_mul_of_nonneg_left hstep (by positivity)

theorem Canonical.compare_eq {m m' : ℕ} {e e' : ℤ} (h : Canonical spec m e)
    (h' : Canonical spec m' e') :
    (compare e e').then (compare m m') = compare ((m : ℚ) * 2 ^ e) (m' * 2 ^ e') := by
  rcases lt_trichotomy e e' with he | rfl | he
  · rw [compare_lt_iff_lt.2 he, compare_lt_iff_lt.2 (h.lt_of_exponent_lt h' he)]
    rfl
  · have hpos := two_zpow_pos e
    rw [compare_eq_iff_eq.2 rfl]
    rcases lt_trichotomy m m' with hm | rfl | hm
    · rw [compare_lt_iff_lt.2 hm, compare_lt_iff_lt.2
        (mul_lt_mul_of_pos_right (by exact_mod_cast hm) hpos)]
      rfl
    · rw [compare_eq_iff_eq.2 rfl, compare_eq_iff_eq.2 rfl]
      rfl
    · rw [compare_gt_iff_gt.2 hm, compare_gt_iff_gt.2
        (mul_lt_mul_of_pos_right (by exact_mod_cast hm) hpos)]
      rfl
  · rw [compare_gt_iff_gt.2 he, compare_gt_iff_gt.2 (h'.lt_of_exponent_lt h he)]
    rfl

theorem Measures.compare_eq (hu : Measures spec u x) (hv : Measures spec v y) :
    u.compare v = some (compare x y) := by
  cases hu with
  | zero s =>
    cases hv with
    | zero s' => simp [UnpackedFloat.compare]
    | @finite m e hm h =>
      have hpos : (0 : ℚ) < m * 2 ^ e := mul_pos (by exact_mod_cast hm) (two_zpow_pos e)
      rw [compare_lt_iff_lt.2 hpos]
      rfl
  | @finite m e hm h =>
    cases hv with
    | zero s' =>
      have hpos : (0 : ℚ) < m * 2 ^ e := mul_pos (by exact_mod_cast hm) (two_zpow_pos e)
      rw [compare_gt_iff_gt.2 hpos]
      rfl
    | finite hm' h' => rw [← h.compare_eq h', UnpackedFloat.compare]

theorem Measures.lt_iff (hu : Measures spec u x) (hv : Measures spec v y) :
    u.lt v = true ↔ x < y := by
  rw [UnpackedFloat.lt, hu.compare_eq hv]
  simp [compare_lt_iff_lt]

theorem Measures.le_iff (hu : Measures spec u x) (hv : Measures spec v y) :
    u.le v = true ↔ x ≤ y := by
  rw [UnpackedFloat.le, hu.compare_eq hv]
  exact Std.LawfulBCmp.isLE_iff_le

theorem Measures.beq_iff (hu : Measures spec u x) (hv : Measures spec v y) :
    u.beq v = true ↔ x = y := by
  rw [UnpackedFloat.beq, hu.compare_eq hv]
  simp

theorem StandsFor.floor_eq {m : ExtendedMantissa} (h : StandsFor m x) : ⌊x⌋₊ = m.mantissa := by
  obtain ⟨hle, hlt, -⟩ := h
  have hbit : (0 : ℚ) ≤ m.roundBit.toNat ∧ (m.roundBit.toNat : ℚ) ≤ 1 := by
    cases m.roundBit <;> simp
  rw [Nat.floor_eq_iff (by have : (0 : ℚ) ≤ m.mantissa := Nat.cast_nonneg _; linarith)]
  exact ⟨by linarith, by linarith⟩

theorem roundToInt_positive (m : ℕ) (e : ℤ) :
    roundToInt .positive m e = (⌊(m : ℚ) * 2 ^ e⌋₊ : ℤ) := by
  rcases le_or_gt 0 e with he | he
  · obtain ⟨n, rfl⟩ := Int.eq_ofNat_of_zero_le he
    have hvalue : (m : ℚ) * 2 ^ (n : ℤ) = (m * 2 ^ n : ℕ) := by
      rw [zpow_natCast]
      push_cast
      rfl
    have hzero (a : ExtendedMantissa) : a >>> (0 : ℕ) = a := rfl
    rw [hvalue, Nat.floor_natCast]
    simp [roundToInt, decreaseExponent, shiftToExponent, Sign.apply, hzero, Nat.shiftLeft_eq,
      ExtendedMantissa.ofMantissaAndAccuracy]
  · obtain ⟨n, hn⟩ := Int.le.dest he.le
    have hvalue : (m : ℚ) * 2 ^ e = m / 2 ^ n := by
      rw [show e = -(n : ℤ) by omega, zpow_neg, zpow_natCast]
      rfl
    have hup : e.toNat = 0 := by omega
    have hdown : (-e).toNat = n := by omega
    rw [hvalue, ((StandsFor.exact m).shiftRight n).floor_eq]
    simp [roundToInt, decreaseExponent, shiftToExponent, Sign.apply, hup, hdown]

theorem Measures.toUInt64_eq (hu : Measures spec u x) :
    u.toUInt64.toNat = min ⌊x⌋₊ (2 ^ 64 - 1) := by
  have hsize : UInt64.size = 2 ^ 64 := rfl
  have hclamp (n : ℕ) : (UInt64.ofNatClamp n).toNat = min n (2 ^ 64 - 1) := by
    unfold UInt64.ofNatClamp
    split
    · next hlt =>
      rw [UInt64.toNat_ofNatLT]
      exact (Nat.min_eq_left (by omega)).symm
    · next hge =>
      rw [UInt64.toNat_ofNatLT, hsize]
      exact (Nat.min_eq_right (by omega)).symm
  cases hu with
  | zero s => simp [UnpackedFloat.toUInt64, UnpackedFloat.toInt, hclamp]
  | finite hm h =>
    simp only [UnpackedFloat.toUInt64, UnpackedFloat.toInt, roundToInt_positive, Int.toNat_natCast,
      hclamp]

/-- Neither negative nor no number at all. -/
inductive Plain : UnpackedFloat → Prop where
  | infinity : Plain (.infinity .positive)
  | zero (s : Sign) : Plain (.zero s)
  | finite {m : ℕ} {e : ℤ} (hm : 0 < m) : Plain (.finite .positive m e hm)

theorem Measures.plain (h : Measures spec u x) : Plain u := by
  cases h with
  | zero s => exact .zero s
  | finite hm h => exact .finite hm

theorem Nearest.plain (h : Nearest spec x u) : Plain u := by
  obtain ⟨r, -, h | ⟨rfl, -⟩⟩ := h
  · exact h.plain
  · exact .infinity

theorem plain_roundWithAccuracy (m : ℕ) (e : ℤ) (accuracy : Accuracy) :
    Plain (roundWithAccuracy spec .positive m e accuracy) := by
  unfold roundWithAccuracy
  dsimp only
  split
  · exact .zero _
  · exact .finite _

namespace Plain

theorem pack (h : Plain u) : Plain (unpack spec (UnpackedFloat.pack spec u)) := by
  cases h with
  | infinity =>
    have hkept : unpack spec (UnpackedFloat.pack spec (.infinity .positive)) =
        .infinity .positive := unpack_packedInfinity .positive
    rw [hkept]
    exact .infinity
  | zero s => exact (nearest_zero s).plain
  | @finite m e hm =>
    simp only [UnpackedFloat.pack]
    split
    · rw [unpack_packedInfinity]
      exact .infinity
    · next hfits =>
      have hexponent := ofNat_ne_neg_one (Nat.lt_of_not_le hfits)
      have hleast : BitVec.ofNat spec.exponentBits 0 ≠ -1#_ := by
        have hbits := two_pow_exponentBits spec
        exact ofNat_ne_neg_one (n := 0) (by omega)
      split
      · simp only [unpack, unpackMantissa_packComponents, unpackExponent_packComponents,
          unpackSign_packComponents, ofBitVec_toBitVec, hexponent, if_false]
        split
        · split
          · exact .zero _
          · exact .finite _
        · exact .finite _
      · simp only [unpack, unpackMantissa_packComponents, unpackExponent_packComponents,
          unpackSign_packComponents, ofBitVec_toBitVec, hleast, if_false, if_true]
        split
        · exact .zero _
        · exact .finite _

theorem sqrt (h : Plain u) : Plain (UnpackedFloat.sqrt spec u) := by
  cases h with
  | infinity => exact .infinity
  | zero s => exact .zero s
  | finite hm => exact plain_roundWithAccuracy _ _ _

theorem add (hu : Plain u) (hv : Plain v) : Plain (UnpackedFloat.add spec u v) := by
  cases hu with
  | infinity => cases hv <;> exact .infinity
  | zero s =>
    cases hv with
    | infinity => exact .infinity
    | zero s' =>
      simp only [UnpackedFloat.add]
      split
      · exact .zero _
      · exact .zero _
    | finite hm => exact .finite hm
  | @finite m e hm =>
    cases hv with
    | infinity => exact .infinity
    | zero s' => exact .finite hm
    | @finite m' e' hm' =>
      obtain ⟨k, t, hnormal, -⟩ := normalize_natCast spec
        ((decreaseExponent m e (min e e')).1 + (decreaseExponent m' e' (min e e')).1) (min e e')
      push_cast at hnormal
      simp only [UnpackedFloat.add, Sign.apply, hnormal, ofParts]
      split
      · exact .zero _
      · exact .finite _

theorem mul (hu : Plain u) (hv : Plain v) :
    UnpackedFloat.mul spec u v = .notANumber ∨ Plain (UnpackedFloat.mul spec u v) := by
  cases hu <;> cases hv
  all_goals first
    | exact .inl rfl
    | exact .inr .infinity
    | exact .inr (.zero _)
    | exact .inr (plain_roundWithAccuracy _ _ _)

theorem eq_infinity (h : Plain u) (hfinite : ¬ u.isFinite = true) : u = .infinity .positive := by
  cases h with
  | infinity => rfl
  | zero s => exact absurd rfl hfinite
  | finite hm => exact absurd rfl hfinite

end Plain

theorem plain_ofNat (n : ℕ) : Plain (UnpackedFloat.ofNat spec n) := by
  obtain ⟨k, t, hnormal, -⟩ := normalize_natCast spec n 0
  simp only [UnpackedFloat.ofNat, UnpackedFloat.ofInt, hnormal, ofParts]
  split
  · exact .zero _
  · exact .finite _

def Loose (u : UnpackedFloat) : Prop := u = .notANumber ∨ Plain u

namespace Loose

theorem pack (h : Loose u) : Loose (unpack spec (UnpackedFloat.pack spec u)) := by
  rcases h with rfl | h
  · exact .inl unpack_packedNaN
  · exact .inr h.pack

theorem sqrt (h : Loose u) : Loose (UnpackedFloat.sqrt spec u) := by
  rcases h with rfl | h
  · exact .inl rfl
  · exact .inr h.sqrt

theorem add (hu : Loose u) (hv : Loose v) : Loose (UnpackedFloat.add spec u v) := by
  rcases hu with rfl | hu
  · exact .inl rfl
  · rcases hv with rfl | hv
    · cases hu <;> exact .inl rfl
    · exact .inr (hu.add hv)

theorem mul (hu : Loose u) (hv : Loose v) : Loose (UnpackedFloat.mul spec u v) := by
  rcases hu with rfl | hu
  · exact .inl rfl
  · rcases hv with rfl | hv
    · cases hu <;> exact .inl rfl
    · exact hu.mul hv

theorem mul_self (u : UnpackedFloat) : Loose (UnpackedFloat.mul spec u u) := by
  have hsign (s : Sign) : s * s = .positive := by cases s <;> rfl
  cases u with
  | notANumber => exact .inl rfl
  | infinity s =>
    simp only [UnpackedFloat.mul, hsign]
    exact .inr .infinity
  | zero s => exact .inr (.zero _)
  | finite s m e hm =>
    simp only [UnpackedFloat.mul, hsign]
    exact .inr (plain_roundWithAccuracy _ _ _)

end Loose

end Double

end VectorDisplay
