import Mathlib
/-!
Rounding to a binary format, by exact rational values. A rational is `Short` if its mantissa fits the
format, whatever its size; `Rounds` says that a short number is no further than a neighbour from the
number it stands for: no short number lies between them. A mantissa with its two residual bits stands
for a rational in the middle of a shift.
-/

set_option autoImplicit false

namespace VectorDisplay

open Float.Model (Format UnpackedFloat totalExponent)
open Float.Model.UnpackedFloat

namespace Double

/-- A mantissa and its residual bits stand for `x`. -/
structure StandsFor (m : ExtendedMantissa) (x : ℚ) : Prop where
  le : m.mantissa + (m.roundBit.toNat : ℚ) / 2 ≤ x
  lt : x < m.mantissa + (m.roundBit.toNat : ℚ) / 2 + 1 / 2
  eq_of_exact : m.stickyBit = false → x = m.mantissa + (m.roundBit.toNat : ℚ) / 2

namespace StandsFor

variable {m : ExtendedMantissa} {x : ℚ}

theorem exact (m : ℕ) : StandsFor (.ofMantissaAndAccuracy m .exact) m := by
  constructor <;> simp [ExtendedMantissa.ofMantissaAndAccuracy]

theorem shiftRightOne (h : StandsFor m x) : StandsFor m.shiftRightOne (x / 2) := by
  obtain ⟨mantissa, round, sticky⟩ := m
  obtain ⟨hle, hlt, heq⟩ := h
  have hhalf : (mantissa : ℚ) = 2 * (mantissa / 2 : ℕ) + ((mantissa % 2 != 0).toNat : ℕ) := by
    have hmod : (mantissa % 2 != 0).toNat = mantissa % 2 := by
      rcases Nat.mod_two_eq_zero_or_one mantissa with h0 | h0 <;> simp [h0]
    rw [hmod]
    exact_mod_cast (Nat.div_add_mod mantissa 2).symm
  have hbit : (0 : ℚ) ≤ round.toNat ∧ (round.toNat : ℚ) ≤ 1 := by
    cases round <;> simp
  simp only at hle hlt heq
  constructor
  · simp only [ExtendedMantissa.shiftRightOne]
    linarith
  · simp only [ExtendedMantissa.shiftRightOne]
    linarith
  · intro hexact
    simp only [ExtendedMantissa.shiftRightOne, Bool.or_eq_false_iff] at hexact ⊢
    have hx := heq hexact.2
    rw [hexact.1] at hx
    simp only [Bool.toNat_false, Nat.cast_zero] at hx
    linarith

theorem shiftRight (h : StandsFor m x) (n : ℕ) : StandsFor (m >>> n) (x / 2 ^ n) := by
  induction n with
  | zero =>
    rw [pow_zero, div_one]
    exact h
  | succ n ih =>
    have hnext := ih.shiftRightOne
    rwa [div_div, ← pow_succ] at hnext

theorem abs_sub_le (h : StandsFor m x) : |(m.roundedMantissa : ℚ) - x| ≤ 1 / 2 := by
  obtain ⟨mantissa, round, sticky⟩ := m
  obtain ⟨hle, hlt, heq⟩ := h
  rw [abs_le]
  cases round <;> cases sticky <;>
    simp only [ExtendedMantissa.roundedMantissa, ExtendedMantissa.accuracy,
      Accuracy.roundToNearestEven, Bool.toNat_false, Bool.toNat_true, Nat.cast_zero, Nat.cast_one,
      Nat.cast_add] at *
  · constructor <;> linarith
  · constructor <;> linarith
  · have hx := heq trivial
    rcases Nat.mod_two_eq_zero_or_one mantissa with h0 | h0 <;> rw [h0] <;> push_cast <;>
      constructor <;> linarith
  · constructor <;> linarith

theorem le_rounded (h : StandsFor m x) {n : ℕ} (hn : (n : ℚ) ≤ x) : n ≤ m.roundedMantissa := by
  have hnear := (abs_le.1 h.abs_sub_le).1
  have : (n : ℚ) < m.roundedMantissa + 1 := by linarith
  exact Nat.lt_succ_iff.1 (by exact_mod_cast this)

theorem rounded_le (h : StandsFor m x) {n : ℕ} (hn : x ≤ n) : m.roundedMantissa ≤ n := by
  have hnear := (abs_le.1 h.abs_sub_le).2
  have : (m.roundedMantissa : ℚ) < n + 1 := by linarith
  exact Nat.lt_succ_iff.1 (by exact_mod_cast this)

end StandsFor

section Format

variable (spec : Format)

/-- A mantissa of the format, of any size. -/
def Short (q : ℚ) : Prop :=
  ∃ (m : ℕ) (e : ℤ), m < 2 ^ spec.mantissaBits ∧ spec.minExponent ≤ e ∧ q = m * 2 ^ e

/-- The one way to write a short number: with a full mantissa, unless the exponent is the least. -/
structure Canonical (m : ℕ) (e : ℤ) : Prop where
  lt : m < 2 ^ spec.mantissaBits
  le : spec.minExponent ≤ e
  full : 2 ^ spec.mantissaBitsWithoutImplicit ≤ m ∨ e = spec.minExponent

/-- A short number that no short number separates from `v`. -/
structure Rounds (v r : ℚ) : Prop where
  short : Short spec r
  le_of_le {q : ℚ} : Short spec q → v ≤ q → r ≤ q
  ge_of_le {q : ℚ} : Short spec q → q ≤ v → q ≤ r

variable {spec}

theorem two_pow_mantissaBits :
    2 ^ spec.mantissaBits = 2 * 2 ^ spec.mantissaBitsWithoutImplicit := by
  rw [Format.mantissaBits, Nat.pow_add]

theorem Canonical.short {m : ℕ} {e : ℤ} (h : Canonical spec m e) : Short spec (m * 2 ^ e) :=
  ⟨m, e, h.lt, h.le, rfl⟩

theorem short_zero : Short spec 0 :=
  ⟨0, spec.minExponent, Nat.two_pow_pos _, le_rfl, by simp⟩

theorem Rounds.nonneg {v r : ℚ} (h : Rounds spec v r) (hv : 0 ≤ v) : 0 ≤ r :=
  h.ge_of_le short_zero hv

theorem Rounds.self {r : ℚ} (h : Short spec r) : Rounds spec r r :=
  ⟨h, fun _ hle => hle, fun _ hle => hle⟩

theorem two_zpow_pos (e : ℤ) : (0 : ℚ) < 2 ^ e := zpow_pos (by norm_num) e

theorem two_zpow_add (a b : ℤ) : (2 : ℚ) ^ (a + b) = 2 ^ a * 2 ^ b := zpow_add₀ (by norm_num) a b

theorem Short.multiple_or_lt {q : ℚ} (h : Short spec q) (t : ℤ) :
    (∃ n : ℕ, q = n * 2 ^ t) ∨
      (spec.minExponent < t ∧ q < 2 ^ spec.mantissaBitsWithoutImplicit * 2 ^ t) := by
  obtain ⟨m, e, hm, he, rfl⟩ := h
  rcases le_or_gt t e with hte | hte
  · obtain ⟨k, rfl⟩ := Int.le.dest hte
    exact .inl ⟨m * 2 ^ k, by push_cast; rw [two_zpow_add, zpow_natCast]; ring⟩
  · right
    refine ⟨lt_of_le_of_lt he hte, ?_⟩
    have hstep : (2 : ℚ) ^ (e + 1) ≤ 2 ^ t := zpow_le_zpow_right₀ (by norm_num) (by omega)
    have hmq : (m : ℚ) < 2 * 2 ^ spec.mantissaBitsWithoutImplicit := by
      rw [two_pow_mantissaBits] at hm
      exact_mod_cast hm
    calc (m : ℚ) * 2 ^ e < 2 * 2 ^ spec.mantissaBitsWithoutImplicit * 2 ^ e :=
          mul_lt_mul_of_pos_right hmq (two_zpow_pos e)
      _ = 2 ^ spec.mantissaBitsWithoutImplicit * 2 ^ (e + 1) := by
          rw [two_zpow_add, zpow_one]; ring
      _ ≤ 2 ^ spec.mantissaBitsWithoutImplicit * 2 ^ t :=
          mul_le_mul_of_nonneg_left hstep (by positivity)

/-- Rounding the mantissa at an exponent where it is full, or at the least one, rounds the number. -/
theorem rounds_of_standsFor {m : ExtendedMantissa} {x : ℚ} {t : ℤ} (h : StandsFor m x)
    (hfull : 2 ^ spec.mantissaBitsWithoutImplicit ≤ x ∨ t ≤ spec.minExponent)
    (hshort : Short spec (m.roundedMantissa * 2 ^ t)) :
    Rounds spec (x * 2 ^ t) (m.roundedMantissa * 2 ^ t) where
  short := hshort
  le_of_le := by
    intro q hq hle
    rcases hq.multiple_or_lt t with ⟨n, rfl⟩ | ⟨hmin, hlt⟩
    · have hn : x ≤ n := le_of_mul_le_mul_right hle (two_zpow_pos t)
      exact mul_le_mul_of_nonneg_right (by exact_mod_cast h.rounded_le hn) (two_zpow_pos t).le
    · have hx := hfull.resolve_right (by omega)
      have := mul_le_mul_of_nonneg_right hx (two_zpow_pos t).le
      linarith
  ge_of_le := by
    intro q hq hle
    rcases hq.multiple_or_lt t with ⟨n, rfl⟩ | ⟨hmin, hlt⟩
    · have hn : (n : ℚ) ≤ x := le_of_mul_le_mul_right hle (two_zpow_pos t)
      exact mul_le_mul_of_nonneg_right (by exact_mod_cast h.le_rounded hn) (two_zpow_pos t).le
    · have hx := hfull.resolve_right (by omega)
      have hk : 2 ^ spec.mantissaBitsWithoutImplicit ≤ m.roundedMantissa :=
        h.le_rounded (by exact_mod_cast hx)
      have hkq : (2 : ℚ) ^ spec.mantissaBitsWithoutImplicit ≤ m.roundedMantissa := by
        exact_mod_cast hk
      have := mul_le_mul_of_nonneg_right hkq (two_zpow_pos t).le
      linarith

variable (spec) in
theorem targetExponent_add (m : ℕ) (e : ℤ) :
    spec.targetExponent (totalExponent m e) =
      max ((m.log2 : ℤ) + e - spec.mantissaBitsWithoutImplicit) spec.minExponent := by
  simp only [Format.targetExponent, totalExponent, Format.mantissaBits]
  push_cast
  congr 1
  ring

def ofParts (s : Sign) (k : ℕ) (t : ℤ) : UnpackedFloat :=
  if h : k = 0 then .zero s else .finite s k t (Nat.pos_of_ne_zero h)

variable (spec) in
theorem shift_rounded {k : ℕ} {t : ℤ} (hk : k ≤ 2 ^ spec.mantissaBits) (ht : spec.minExponent ≤ t)
    (hfull : 2 ^ spec.mantissaBitsWithoutImplicit ≤ k ∨ t = spec.minExponent) :
    ∃ k' t', shiftToTargetExponent spec k t .exact = (.ofMantissaAndAccuracy k' .exact, t') ∧
      Canonical spec k' t' ∧ (k' : ℚ) * 2 ^ t' = k * 2 ^ t := by
  have hp := @two_pow_mantissaBits spec
  rcases Nat.lt_or_eq_of_le hk with hlt | rfl
  · have hlog : k.log2 ≤ spec.mantissaBitsWithoutImplicit := by
      by_cases hzero : k = 0
      · simp [hzero]
      · have := (Nat.log2_lt hzero).2 hlt
        rw [Format.mantissaBits] at this
        omega
    have hstay : spec.targetExponent (totalExponent k t) - t ≤ 0 := by
      rw [targetExponent_add]
      omega
    refine ⟨k, t, ?_, ⟨hlt, ht, hfull⟩, rfl⟩
    simp only [shiftToTargetExponent, shiftToExponent, Int.toNat_of_nonpos hstay]
    simp
    rfl
  · have hstep : spec.targetExponent (totalExponent (2 ^ spec.mantissaBits) t) - t = 1 := by
      rw [targetExponent_add, Nat.log2_two_pow, Format.mantissaBits]
      push_cast
      omega
    have hhalf : 2 ^ spec.mantissaBits / 2 = 2 ^ spec.mantissaBitsWithoutImplicit := by omega
    have heven : 2 ^ spec.mantissaBits % 2 = 0 := by omega
    refine ⟨2 ^ spec.mantissaBitsWithoutImplicit, t + 1, ?_,
      ⟨by have := Nat.two_pow_pos spec.mantissaBitsWithoutImplicit; omega, by omega, .inl le_rfl⟩, ?_⟩
    · have hone (m : ExtendedMantissa) : m >>> (1 : ℕ) = m.shiftRightOne := rfl
      simp only [shiftToTargetExponent, shiftToExponent, hstep, Int.toNat_one, hone]
      simp [ExtendedMantissa.shiftRightOne, ExtendedMantissa.ofMantissaAndAccuracy, hhalf, heven]
    · rw [two_zpow_add, zpow_one]
      have hpq : (2 : ℚ) ^ spec.mantissaBits = 2 * 2 ^ spec.mantissaBitsWithoutImplicit := by
        exact_mod_cast hp
      push_cast
      rw [hpq]
      ring

variable (spec) in
theorem roundWithAccuracy_eq (s : Sign) {m : ℕ} {e : ℤ} {accuracy : Accuracy} {x : ℚ}
    (h : StandsFor (.ofMantissaAndAccuracy m accuracy) x)
    (he : e ≤ spec.targetExponent (totalExponent m e)) :
    ∃ k t, roundWithAccuracy spec s m e accuracy = ofParts s k t ∧ Canonical spec k t ∧
      Rounds spec (x * 2 ^ e) (k * 2 ^ t) := by
  have hmx : (m : ℚ) ≤ x ∧ x < m + 1 := by
    obtain ⟨hle, hlt, -⟩ := h
    cases accuracy with
    | exact =>
      simp [ExtendedMantissa.ofMantissaAndAccuracy] at hle hlt
      exact ⟨hle, by linarith⟩
    | inexact o =>
      cases o <;> simp [ExtendedMantissa.ofMantissaAndAccuracy] at hle hlt <;>
        exact ⟨by linarith, by linarith⟩
  obtain ⟨n, hn⟩ := Int.le.dest he
  have hspec := spec.hm
  have hmant := targetExponent_add spec m e
  rw [← hn] at hmant
  have hx : x / 2 ^ n * 2 ^ (e + (n : ℤ)) = x * 2 ^ e := by
    rw [two_zpow_add, zpow_natCast]
    field_simp
  have hstands := h.shiftRight n
  have hfull : 2 ^ spec.mantissaBitsWithoutImplicit ≤ x / 2 ^ n ∨ e + n = spec.minExponent := by
    by_cases hmin : e + n = spec.minExponent
    · exact .inr hmin
    · have hlog : spec.mantissaBitsWithoutImplicit + n = m.log2 := by omega
      have hm : m ≠ 0 := by
        intro hzero
        rw [hzero] at hlog
        simp at hlog
        omega
      left
      rw [le_div_iff₀ (by positivity), ← pow_add, hlog]
      exact le_trans (by exact_mod_cast Nat.log2_self_le hm) hmx.1
  have hbound : x / 2 ^ n ≤ (2 ^ spec.mantissaBits : ℕ) := by
    rw [div_le_iff₀ (by positivity)]
    have hm : m + 1 ≤ 2 ^ spec.mantissaBits * 2 ^ n := by
      rw [← Nat.pow_add]
      refine le_trans Nat.lt_log2_self (Nat.pow_le_pow_right (by norm_num) ?_)
      rw [Format.mantissaBits]
      omega
    have hmq : (m : ℚ) + 1 ≤ (2 ^ spec.mantissaBits : ℕ) * 2 ^ n := by exact_mod_cast hm
    linarith [hmx.2]
  have hfirst : shiftToTargetExponent spec m e accuracy =
      (ExtendedMantissa.ofMantissaAndAccuracy m accuracy >>> n, e + n) := by
    simp only [shiftToTargetExponent, shiftToExponent, ← hn]
    simp
  have hk : 2 ^ spec.mantissaBitsWithoutImplicit ≤
      (ExtendedMantissa.ofMantissaAndAccuracy m accuracy >>> n).roundedMantissa ∨
        e + n = spec.minExponent :=
    hfull.imp_left fun hle => hstands.le_rounded (by exact_mod_cast hle)
  obtain ⟨k, t, hshift, hcanonical, hvalue⟩ :=
    shift_rounded spec (hstands.rounded_le hbound) (by omega) hk
  refine ⟨k, t, ?_, hcanonical, ?_⟩
  · simp only [roundWithAccuracy, hfirst, hshift]
    rfl
  · have hshort := hcanonical.short
    rw [hvalue] at hshort ⊢
    rw [← hx]
    exact rounds_of_standsFor hstands (hfull.imp_right le_of_eq) hshort

theorem log2_shiftLeft {m : ℕ} (hm : 0 < m) (n : ℕ) : (m <<< n).log2 = m.log2 + n := by
  have hle := Nat.mul_le_mul_right (2 ^ n) (Nat.log2_self_le hm.ne')
  have hlt := Nat.mul_lt_mul_of_pos_right (Nat.lt_log2_self (n := m)) (Nat.two_pow_pos n)
  rw [← Nat.pow_add] at hle hlt
  rw [Nat.shiftLeft_eq, Nat.log2_eq_iff (by positivity), Nat.add_right_comm]
  exact ⟨hle, hlt⟩

variable (spec) in
theorem round_eq (s : Sign) {m : ℕ} (hm : 0 < m) (e : ℤ) :
    ∃ k t, UnpackedFloat.round spec s m e = ofParts s k t ∧ Canonical spec k t ∧
      Rounds spec (m * 2 ^ e) (k * 2 ^ t) := by
  obtain ⟨n, hn⟩ : ∃ n, (e - spec.targetExponent (totalExponent m e)).toNat = n := ⟨_, rfl⟩
  have hlog := log2_shiftLeft hm n
  have htarget : e - n ≤ spec.targetExponent (totalExponent (m <<< n) (e - n)) := by
    have hm := targetExponent_add spec m e
    rw [targetExponent_add, hlog]
    push_cast
    omega
  obtain ⟨k, t, hround, hcanonical, hvalue⟩ :=
    roundWithAccuracy_eq spec s (StandsFor.exact (m <<< n)) htarget
  refine ⟨k, t, ?_, hcanonical, ?_⟩
  · simp only [UnpackedFloat.round, decreaseExponent, hn]
    exact hround
  · have hx : ((m <<< n : ℕ) : ℚ) * 2 ^ (e - (n : ℤ)) = m * 2 ^ e := by
      rw [Nat.shiftLeft_eq, zpow_sub₀ (by norm_num), zpow_natCast]
      push_cast
      field_simp
    rwa [hx] at hvalue

variable (spec) in
theorem normalize_natCast (n : ℕ) (e : ℤ) :
    ∃ k t, UnpackedFloat.normalize spec n e .positive = ofParts .positive k t ∧
      Canonical spec k t ∧ Rounds spec (n * 2 ^ e) (k * 2 ^ t) := by
  rcases Nat.eq_zero_or_pos n with rfl | hn
  · refine ⟨0, spec.minExponent, rfl, ⟨Nat.two_pow_pos _, le_rfl, .inr rfl⟩, ?_⟩
    simpa using Rounds.self short_zero
  · obtain ⟨k, t, hround, hrest⟩ := round_eq spec .positive hn e
    refine ⟨k, t, ?_, hrest⟩
    have hcompare : compare (n : ℤ) 0 = .gt := Int.compare_eq_gt.2 (by omega)
    simp only [UnpackedFloat.normalize, hcompare, Int.toNat_natCast]
    exact hround

end Format

end Double

end VectorDisplay
