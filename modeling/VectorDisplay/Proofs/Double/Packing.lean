import VectorDisplay.Proofs.Double.Rounding
set_option autoImplicit false

namespace VectorDisplay

open Float.Model (Format UnpackedFloat totalExponent)
open Float.Model.UnpackedFloat

namespace Double

variable (spec : Format)

def maxExponent : ℤ := spec.exponentBias - spec.mantissaBitsWithoutImplicit

theorem two_pow_exponentBits : 2 ^ spec.exponentBits = 2 * (spec.exponentBias + 1) := by
  have hbits : spec.exponentBits = spec.exponentBits - 1 + 1 := by
    have := spec.he
    omega
  have hpos := Nat.two_pow_pos (spec.exponentBits - 1)
  rw [Format.exponentBias, Nat.sub_add_cancel hpos]
  conv_lhs => rw [hbits]
  rw [Nat.pow_succ, Nat.mul_comm]

theorem minExponent_eq :
    spec.minExponent = 1 - (spec.exponentBias : ℤ) - spec.mantissaBitsWithoutImplicit := by
  have hpos := Nat.two_pow_pos (spec.exponentBits - 1)
  simp only [Format.minExponent, Format.exponentBias, Format.mantissaBits]
  push_cast [Nat.cast_sub hpos]
  omega

variable {spec}

@[simp] theorem unpackSign_packComponents (s : Sign) (e : BitVec spec.exponentBits)
    (m : BitVec spec.mantissaBitsWithoutImplicit) :
    unpackSign (packComponents spec s e m) = s.toBitVec := by
  ext i hi
  obtain rfl : i = 0 := by omega
  simp [unpackSign, packComponents, BitVec.getLsbD_append, BitVec.getElem_append]

@[simp] theorem ofBitVec_toBitVec (s : Sign) : Sign.ofBitVec s.toBitVec = s := by
  cases s <;> rfl

theorem implicit_append (m : BitVec spec.mantissaBitsWithoutImplicit) :
    (1#1 ++ m).toNat = 2 ^ spec.mantissaBitsWithoutImplicit + m.toNat := by
  rw [BitVec.toNat_append, ← Nat.shiftLeft_add_eq_or_of_lt m.isLt]
  simp [Nat.shiftLeft_eq]

theorem canonical_of_unpack (hbias : 0 < spec.exponentBias) {b : BitVec spec.numBits} {s : Sign}
    {m : ℕ} {e : ℤ} {hm : 0 < m} (h : unpack spec b = .finite s m e hm) :
    Canonical spec m e ∧ e ≤ maxExponent spec := by
  have hbits := two_pow_exponentBits spec
  have hmin := minExponent_eq spec
  have hmant := @two_pow_mantissaBits spec
  unfold UnpackedFloat.unpack at h
  dsimp only at h
  split at h
  · split at h <;> cases h
  · next hexponent =>
    split at h
    · split at h
      · cases h
      · next hzero hmantissa =>
        cases h
        have hlt := (unpackMantissa b).isLt
        rw [hzero]
        simp only [BitVec.toNat_zero]
        refine ⟨⟨by omega, by omega, .inr (by omega)⟩, ?_⟩
        rw [maxExponent]
        omega
    · next hzero =>
      cases h
      have hlt := (unpackMantissa b).isLt
      have hexp := (unpackExponent b).isLt
      have hpos : (unpackExponent b).toNat ≠ 0 := fun h0 => hzero (BitVec.eq_of_toNat_eq (by simpa))
      have hmax : (unpackExponent b).toNat ≠ 2 ^ spec.exponentBits - 1 := by
        intro h1
        apply hexponent
        apply BitVec.eq_of_toNat_eq
        rw [h1, BitVec.neg_one_eq_allOnes, BitVec.toNat_allOnes]
      rw [implicit_append]
      refine ⟨⟨by omega, by omega, .inl (by omega)⟩, ?_⟩
      rw [maxExponent]
      omega

theorem ofNat_ne_neg_one {n : ℕ} (hn : n + 1 < 2 ^ spec.exponentBits) :
    BitVec.ofNat spec.exponentBits n ≠ -1#_ := by
  intro h
  have htoNat := congrArg BitVec.toNat h
  rw [BitVec.toNat_ofNat, Nat.mod_eq_of_lt (by omega), BitVec.neg_one_eq_allOnes,
    BitVec.toNat_allOnes] at htoNat
  omega

theorem unpack_pack_finite (s : Sign) {m : ℕ} {e : ℤ} (hm : 0 < m) (h : Canonical spec m e)
    (he : e ≤ maxExponent spec) :
    unpack spec (pack spec (.finite s m e hm)) = .finite s m e hm := by
  have hbits := two_pow_exponentBits spec
  have hmin := minExponent_eq spec
  have hmant := @two_pow_mantissaBits spec
  obtain ⟨hlt, hle, hfull⟩ := h
  rw [maxExponent] at he
  obtain ⟨n, hn⟩ : ∃ n : ℕ, e + spec.exponentBias + spec.mantissaBitsWithoutImplicit = n :=
    ⟨(e + spec.exponentBias + spec.mantissaBitsWithoutImplicit).toNat, by omega⟩
  have hfits : n + 1 < 2 ^ spec.exponentBits := by omega
  by_cases hlow : 2 ^ spec.mantissaBitsWithoutImplicit ≤ m
  · have hlog : m.log2 + 1 = spec.mantissaBits := by
      rw [Format.mantissaBits, (Nat.log2_eq_iff hm.ne').2 ⟨hlow, by rw [Nat.pow_succ]; omega⟩,
        Nat.add_comm]
    have hzero : BitVec.ofNat spec.exponentBits n ≠ 0#_ := by
      intro h0
      have htoNat := congrArg BitVec.toNat h0
      rw [BitVec.toNat_ofNat, Nat.mod_eq_of_lt (by omega), BitVec.toNat_zero] at htoNat
      omega
    have hexponent : (BitVec.ofNat spec.exponentBits n).toNat = n := by
      rw [BitVec.toNat_ofNat, Nat.mod_eq_of_lt (by omega)]
    have hmantissa : (1#1 ++ BitVec.ofNat spec.mantissaBitsWithoutImplicit m).toNat = m := by
      rw [implicit_append, BitVec.toNat_ofNat, Nat.mod_eq_sub_mod hlow,
        Nat.mod_eq_of_lt (by omega)]
      omega
    simp only [pack, hn, Int.toNat_natCast]
    rw [if_neg (by omega), if_pos hlog]
    simp only [unpack, unpackMantissa_packComponents, unpackExponent_packComponents,
      unpackSign_packComponents, ofBitVec_toBitVec, ofNat_ne_neg_one hfits, hzero, if_false,
      hexponent, hmantissa]
    congr 1
    omega
  · have hleast : e = spec.minExponent := hfull.resolve_left hlow
    have hlog : ¬ m.log2 + 1 = spec.mantissaBits := by
      have := (Nat.log2_lt hm.ne').2 (Nat.lt_of_not_le hlow)
      rw [Format.mantissaBits]
      omega
    have hmantissa : (BitVec.ofNat spec.mantissaBitsWithoutImplicit m).toNat = m := by
      rw [BitVec.toNat_ofNat, Nat.mod_eq_of_lt (by omega)]
    have hsome : BitVec.ofNat spec.mantissaBitsWithoutImplicit m ≠ 0#_ := by
      intro h0
      rw [h0, BitVec.toNat_zero] at hmantissa
      omega
    have hzero : BitVec.ofNat spec.exponentBits 0 ≠ -1#_ := ofNat_ne_neg_one (n := 0) (by omega)
    simp only [pack, hn, Int.toNat_natCast]
    rw [if_neg (by omega), if_neg hlog]
    simp only [unpack, unpackMantissa_packComponents, unpackExponent_packComponents,
      unpackSign_packComponents, ofBitVec_toBitVec, hzero, hsome, if_false, if_true, dite_false,
      BitVec.toNat_zero, hmantissa]
    congr 1
    omega

@[simp] theorem unpack_packedInfinity (s : Sign) :
    unpack spec (packedInfinity spec s) = .infinity s := by
  simp [unpack, packedInfinity]

@[simp] theorem unpack_packedZero (s : Sign) : unpack spec (packedZero spec s) = .zero s := by
  have hbits := two_pow_exponentBits spec
  have hzero : BitVec.ofNat spec.exponentBits 0 ≠ -1#_ := ofNat_ne_neg_one (n := 0) (by omega)
  simp [unpack, packedZero, hzero]

@[simp] theorem unpack_packedNaN : unpack spec (packedNaN spec) = .notANumber := by
  have hsome : (BitVec.ofNat spec.mantissaBitsWithoutImplicit 1 <<< (spec.mantissaBitsWithoutImplicit - 1)) ≠
      0#_ := by
    intro h0
    have hbits := spec.hm
    have htoNat := congrArg BitVec.toNat h0
    have hlt : 2 ^ (spec.mantissaBitsWithoutImplicit - 1) < 2 ^ spec.mantissaBitsWithoutImplicit :=
      Nat.pow_lt_pow_right (by decide) (by omega)
    have hone : 1 < 2 ^ spec.mantissaBitsWithoutImplicit := Nat.one_lt_two_pow (by omega)
    rw [BitVec.toNat_shiftLeft, BitVec.toNat_ofNat, Nat.mod_eq_of_lt hone, Nat.shiftLeft_eq,
      Nat.one_mul, Nat.mod_eq_of_lt hlt, BitVec.toNat_zero] at htoNat
    have := Nat.two_pow_pos (spec.mantissaBitsWithoutImplicit - 1)
    omega
  simp [unpack, packedNaN, hsome]

theorem unpack_pack_overflow (s : Sign) {m : ℕ} {e : ℤ} (hm : 0 < m) (he : maxExponent spec < e) :
    unpack spec (pack spec (.finite s m e hm)) = .infinity s := by
  have hbits := two_pow_exponentBits spec
  rw [maxExponent] at he
  simp only [pack]
  rw [if_pos (by omega), unpack_packedInfinity]

end Double

end VectorDisplay
