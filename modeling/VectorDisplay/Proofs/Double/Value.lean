import VectorDisplay.Number.Amount
import VectorDisplay.Proofs.Double.Order
set_option autoImplicit false

namespace VectorDisplay

open Float.Model (Format UnpackedFloat totalExponent)
open Float.Model.UnpackedFloat

namespace Double

def HasValue (x : Float) (q : ℚ) : Prop := Measures Format.binary64 x.toModel.unpack q

def IsInfinite (x : Float) : Prop := x.toModel.unpack = .infinity .positive

def NotNegative (x : Float) : Prop := Loose x.toModel.unpack

section Limits

theorem bias_pos : 0 < Format.binary64.exponentBias := by decide

theorem two_pow_lt_limit {k : ℕ} (hk : k < 1024) : (2 : ℚ) ^ k < limit Format.binary64 := by
  have hmax : maxExponent Format.binary64 + 1 = (972 : ℕ) := by decide
  rw [limit, hmax, zpow_natCast, ← pow_add]
  exact pow_lt_pow_right₀ (by norm_num) hk

theorem short_two_pow (k : ℕ) : Short Format.binary64 (2 ^ k) :=
  ⟨1, k, by decide, le_trans (by decide) (Int.natCast_nonneg k), by simp⟩

theorem short_two_zpow {z : ℤ} (hz : -1074 ≤ z) : Short Format.binary64 (2 ^ z) :=
  ⟨1, z, by decide, le_trans (by decide) hz, by simp⟩

theorem short_natCast_mul {n : ℕ} (hn : n < 2 ^ 53) (k : ℕ) : Short Format.binary64 (n * 2 ^ k) :=
  ⟨n, k, hn, le_trans (by decide) (Int.natCast_nonneg k), by simp⟩

theorem short_natCast {n : ℕ} (hn : n < 2 ^ 53) : Short Format.binary64 n := by
  simpa using short_natCast_mul hn 0

theorem natCast_lt_limit {n : ℕ} (hn : n < 2 ^ 53) : (n : ℚ) < limit Format.binary64 :=
  lt_trans (by exact_mod_cast hn) (two_pow_lt_limit (k := 53) (by norm_num))

end Limits

section Outcomes

variable {u : UnpackedFloat} {v q : ℚ}

theorem Nearest.exists_le (h : Nearest Format.binary64 v u) (hq : Short Format.binary64 q)
    (hlt : q < limit Format.binary64) (hv : v ≤ q) :
    ∃ r, Measures Format.binary64 u r ∧ r ≤ q := by
  obtain ⟨r, hr, hu | ⟨-, hlimit⟩⟩ := h
  · exact ⟨r, hu, hr.le_of_le hq hv⟩
  · have := hr.le_of_le hq hv
    linarith

theorem Nearest.exact (h : Nearest Format.binary64 q u) (hq : Short Format.binary64 q)
    (hlt : q < limit Format.binary64) : Measures Format.binary64 u q := by
  obtain ⟨r, hr, hu | ⟨-, hlimit⟩⟩ := h
  · rwa [le_antisymm (hr.le_of_le hq le_rfl) (hr.ge_of_le hq le_rfl)] at hu
  · have := hr.le_of_le hq le_rfl
    linarith

theorem Measures.unique {spec : Format} {x y : ℚ} (hx : Measures spec u x)
    (hy : Measures spec u y) : x = y := by
  cases hx <;> cases hy <;> rfl

theorem exists_hasValue {x : Float} (h : NotNegative x) (hfinite : x.isFinite = true) :
    ∃ q, HasValue x q := by
  have hfinite' : x.toModel.unpack.isFinite = true := hfinite
  unfold HasValue
  rcases h with h | h
  · rw [h] at hfinite'
    cases hfinite'
  · cases hu : x.toModel.unpack with
    | notANumber =>
      rw [hu] at h
      cases h
    | infinity s =>
      rw [hu] at hfinite'
      cases hfinite'
    | zero s => exact ⟨0, .zero s⟩
    | finite s m e hm =>
      rw [hu] at h
      cases h
      exact ⟨m * 2 ^ e, .finite hm (canonical_of_unpack bias_pos hu).1⟩

end Outcomes

def value (x : Float) : ℚ :=
  match x.toModel.unpack with
  | .finite .positive m e _ => m * 2 ^ e
  | _ => 0

theorem HasValue.value_eq {x : Float} {q : ℚ} (h : HasValue x q) : value x = q := by
  unfold HasValue at h
  unfold value
  cases hu : x.toModel.unpack with
  | notANumber =>
    rw [hu] at h
    cases h
  | infinity s =>
    rw [hu] at h
    cases h
  | zero s =>
    rw [hu] at h
    cases h
    rfl
  | finite s m e hm =>
    rw [hu] at h
    cases h
    rfl

theorem hasValue_of_value_pos {x : Float} (h : 0 < value x) : HasValue x (value x) := by
  unfold value at h ⊢
  unfold HasValue
  cases hu : x.toModel.unpack with
  | notANumber => simp [hu] at h
  | infinity s => simp [hu] at h
  | zero s => simp [hu] at h
  | finite s m e hm =>
    cases s with
    | negative => simp [hu] at h
    | positive => exact .finite hm (canonical_of_unpack bias_pos hu).1

theorem lt_iff_unpack (x y : Float) : x < y ↔ x.toModel.unpack.lt y.toModel.unpack = true :=
  decide_eq_true_iff

theorem le_iff_unpack (x y : Float) : x ≤ y ↔ x.toModel.unpack.le y.toModel.unpack = true :=
  decide_eq_true_iff

namespace HasValue

variable {x y : Float} {a b : ℚ}

theorem nonneg (h : HasValue x a) : 0 ≤ a := Measures.nonneg h

theorem isFinite (h : HasValue x a) : x.isFinite = true := by
  have hfinite {u : UnpackedFloat} (hu : Measures Format.binary64 u a) : u.isFinite = true := by
    cases hu <;> rfl
  exact hfinite h

theorem lt_iff (hx : HasValue x a) (hy : HasValue y b) : x < y ↔ a < b :=
  (lt_iff_unpack x y).trans (Measures.lt_iff hx hy)

theorem le_iff (hx : HasValue x a) (hy : HasValue y b) : x ≤ y ↔ a ≤ b :=
  (le_iff_unpack x y).trans (Measures.le_iff hx hy)

theorem beq_iff (hx : HasValue x a) (hy : HasValue y b) : (x == y) = true ↔ a = b :=
  Measures.beq_iff hx hy

theorem add (hx : HasValue x a) (hy : HasValue y b) :
    Nearest Format.binary64 (a + b) (x + y).toModel.unpack := Measures.add bias_pos hx hy

theorem sub (hx : HasValue x a) (hy : HasValue y b) (hle : b ≤ a) :
    Nearest Format.binary64 (a - b) (x - y).toModel.unpack := Measures.sub bias_pos hx hy hle

theorem mul (hx : HasValue x a) (hy : HasValue y b) :
    Nearest Format.binary64 (a * b) (x * y).toModel.unpack := Measures.mul bias_pos hx hy

theorem div (hx : HasValue x a) (hy : HasValue y b) (hb : 0 < b) :
    Nearest Format.binary64 (a / b) (x / y).toModel.unpack := Measures.div bias_pos hx hy hb

theorem toUInt64_eq (h : HasValue x a) : x.toUInt64.toNat = min ⌊a⌋₊ (2 ^ 64 - 1) :=
  Measures.toUInt64_eq h

end HasValue

section Integers

theorem hasValue_zero : HasValue 0.0 0 := Measures.zero .positive

theorem hasValue_one : HasValue (Float.ofBits 0x3FF0000000000000) 1 := by
  have hunpack : (Float.ofBits 0x3FF0000000000000).toModel.unpack =
      .finite .positive (2 ^ 52) (-52) (by decide) := rfl
  have hcanonical : Canonical Format.binary64 (2 ^ 52) (-52) :=
    ⟨by decide, by decide, .inl (by decide)⟩
  have hvalue : ((2 ^ 52 : ℕ) : ℚ) * 2 ^ (-52 : ℤ) = 1 := by norm_num
  rw [HasValue, hunpack, ← hvalue]
  exact .finite _ hcanonical

theorem hasValue_integralFrom : HasValue integralFrom (2 ^ 53) := by
  have hunpack : integralFrom.toModel.unpack = .finite .positive (2 ^ 52) 1 (by decide) := by rfl
  have hcanonical : Canonical Format.binary64 (2 ^ 52) 1 :=
    ⟨by decide, by decide, .inl (by decide)⟩
  have hvalue : ((2 ^ 52 : ℕ) : ℚ) * 2 ^ (1 : ℤ) = 2 ^ 53 := by norm_num
  rw [HasValue, hunpack, ← hvalue]
  exact .finite _ hcanonical

theorem hasValue_toFloat {n : UInt64} (hn : n.toNat < 2 ^ 53) : HasValue n.toFloat n.toNat :=
  (nearest_ofNat bias_pos n.toNat).exact (short_natCast hn) (natCast_lt_limit hn)

theorem nearest_toModel_ofNat (n : ℕ) :
    Nearest Format.binary64 n (Float.ofNat n).toModel.unpack := by
  by_cases hsmall : n < 2 ^ 53
  · have hone : Float.ofNat n = n.toUInt64.toFloat * Float.ofBits 0x3FF0000000000000 := by
      simp only [Float.ofNat, OfScientific.ofScientific, Float.ofScientific, hsmall]
      rfl
    have hn : n.toUInt64.toNat = n := Nat.mod_eq_of_lt (by omega)
    have hfloat := hasValue_toFloat (n := n.toUInt64) (by omega)
    rw [hone]
    simpa [hn] using hfloat.mul hasValue_one
  · have hmodel : Float.ofNat n = .ofModel (Float.Model.ofScientific n 0) := by
      simp only [Float.ofNat, OfScientific.ofScientific, Float.ofScientific, hsmall]
      rfl
    have hpos : 0 < n := by omega
    have hlog : 53 ≤ n.log2 := (Nat.le_log2 hpos.ne').2 (by omega)
    have htarget : (-53 : ℤ) ≤
        Format.binary64.targetExponent (totalExponent (n <<< 53) (-53)) := by
      rw [targetExponent_add, log2_shiftLeft hpos]
      refine le_trans ?_ (le_max_left _ _)
      push_cast
      omega
    obtain ⟨k, t, hround, hcanonical, hvalue⟩ :=
      roundWithAccuracy_eq _ .positive (StandsFor.exact (n <<< 53)) htarget
    have hn : ((n <<< 53 : ℕ) : ℚ) * 2 ^ (-53 : ℤ) = n := by
      rw [Nat.shiftLeft_eq, zpow_neg, zpow_ofNat]
      push_cast
      exact mul_inv_cancel_right₀ (by norm_num) _
    have hscientific : UnpackedFloat.ofScientific Format.binary64 n 0 =
        roundWithAccuracy Format.binary64 .positive (n <<< 53) (-53) .exact := by
      have hlow : ¬ (0 : ℤ) < -((2 : ℤ) ^ Format.binary64.exponentBits + n.log2) := by
        have : (0 : ℤ) ≤ 2 ^ Format.binary64.exponentBits := by positivity
        omega
      have hbits : Format.binary64.mantissaBits = 53 := rfl
      have hsign : Sign.positive * Sign.positive = .positive := rfl
      unfold UnpackedFloat.ofScientific
      rw [dif_neg hpos.ne', if_neg (by decide), if_neg hlow, if_pos (le_refl _)]
      simp only [UnpackedFloat.mul, hbits, hsign, Int.toNat_zero, pow_zero, mul_one, add_zero,
        Nat.cast_ofNat]
    rw [hn] at hvalue
    rw [hmodel]
    change Nearest _ _ (unpack Format.binary64 (pack Format.binary64
      (UnpackedFloat.ofScientific Format.binary64 n 0)))
    rw [hscientific, hround]
    exact nearest_ofParts bias_pos hcanonical hvalue

theorem hasValue_ofNat {n : ℕ} (hn : n < 2 ^ 53) : HasValue (Float.ofNat n) n :=
  (nearest_toModel_ofNat n).exact (short_natCast hn) (natCast_lt_limit hn)

end Integers

theorem HasValue.exists_two_zpow {x : Float} {q : ℚ} (h : HasValue x q) (hq : 0 < q) :
    ∃ z : ℤ, z ≤ 1023 ∧ 2 ^ z ≤ q ∧ q ≤ 2 ^ (z + 1) := by
  unfold HasValue at h
  cases hu : x.toModel.unpack with
  | notANumber =>
    rw [hu] at h
    cases h
  | infinity s =>
    rw [hu] at h
    cases h
  | zero s =>
    rw [hu] at h
    cases h
    exact absurd hq (lt_irrefl 0)
  | finite s m e hm =>
    rw [hu] at h
    cases h
    obtain ⟨hcanonical, hmax⟩ := canonical_of_unpack bias_pos hu
    have hlog : m.log2 < 53 := (Nat.log2_lt hm.ne').2 hcanonical.lt
    have htop : maxExponent Format.binary64 = 971 := by decide
    have hlow : ((2 ^ m.log2 : ℕ) : ℚ) ≤ m := by exact_mod_cast Nat.log2_self_le hm.ne'
    have hhigh : (m : ℚ) ≤ (2 ^ (m.log2 + 1) : ℕ) := by exact_mod_cast Nat.lt_log2_self.le
    have hpos := two_zpow_pos e
    push_cast at hlow hhigh
    refine ⟨m.log2 + e, by omega, ?_, ?_⟩
    · rw [two_zpow_add, zpow_natCast]
      exact mul_le_mul_of_nonneg_right hlow hpos.le
    · rw [show (m.log2 : ℤ) + e + 1 = (m.log2 + 1 : ℕ) + e by push_cast; ring, two_zpow_add,
        zpow_natCast]
      exact mul_le_mul_of_nonneg_right hhigh hpos.le

namespace NotNegative

variable {x y : Float}

theorem ofNat (n : ℕ) : NotNegative (Float.ofNat n) := .inr (nearest_toModel_ofNat n).plain

theorem add (hx : NotNegative x) (hy : NotNegative y) : NotNegative (x + y) :=
    (Loose.add hx hy).pack

theorem mul (hx : NotNegative x) (hy : NotNegative y) : NotNegative (x * y) :=
    (Loose.mul hx hy).pack

theorem mul_self (x : Float) : NotNegative (x * x) := (Loose.mul_self x.toModel.unpack).pack

theorem sqrt (h : NotNegative x) : NotNegative x.sqrt := (Loose.sqrt h).pack

theorem of_zero_lt (h : 0.0 < x) : NotNegative x := by
  have hzero : (0.0 : Float).toModel.unpack = .zero .positive := rfl
  rw [lt_iff_unpack, hzero] at h
  unfold NotNegative
  cases hu : x.toModel.unpack with
  | notANumber => exact .inl rfl
  | infinity s =>
    rw [hu] at h
    cases s with
    | negative => cases h
    | positive => exact .inr .infinity
  | zero s => exact .inr (.zero s)
  | finite s m e hm =>
    rw [hu] at h
    cases s with
    | negative => cases h
    | positive => exact .inr (.finite hm)

end NotNegative

section Sums

section Finite

variable {spec : Format} {u v : UnpackedFloat} {q : ℚ}

theorem not_measures_notANumber : ¬ Measures spec (unpack spec (pack spec .notANumber)) q := by
  have hpacked : unpack spec (pack spec .notANumber) = .notANumber := unpack_packedNaN
  rw [hpacked]
  intro h
  cases h

theorem not_measures_infinity :
    ¬ Measures spec (unpack spec (pack spec (.infinity .positive))) q := by
  have hpacked : unpack spec (pack spec (.infinity .positive)) = .infinity .positive :=
    unpack_packedInfinity .positive
  rw [hpacked]
  intro h
  cases h

theorem isFinite_of_measures_add (hu : Loose u) (hv : Loose v)
    (h : Measures spec (unpack spec (pack spec (UnpackedFloat.add spec u v))) q) :
    u.isFinite = true ∧ v.isFinite = true := by
  rcases hu with rfl | hu
  · exact (not_measures_notANumber h).elim
  · rcases hv with rfl | hv
    · cases hu <;> exact (not_measures_notANumber h).elim
    · cases hu <;> cases hv
      all_goals first
        | exact (not_measures_infinity h).elim
        | exact ⟨rfl, rfl⟩

theorem isFinite_of_measures_mul (hu : Loose u) (hv : Loose v)
    (h : Measures spec (unpack spec (pack spec (UnpackedFloat.mul spec u v))) q) :
    u.isFinite = true ∧ v.isFinite = true := by
  rcases hu with rfl | hu
  · exact (not_measures_notANumber h).elim
  · rcases hv with rfl | hv
    · cases hu <;> exact (not_measures_notANumber h).elim
    · cases hu <;> cases hv
      all_goals first
        | exact (not_measures_infinity h).elim
        | exact (not_measures_notANumber h).elim
        | exact ⟨rfl, rfl⟩

end Finite

variable {x y : Float} {q : ℚ}

theorem HasValue.of_add (h : HasValue (x + y) q) (hx : NotNegative x) (hy : NotNegative y) :
    (∃ a, HasValue x a ∧ a ≤ q) ∧ ∃ b, HasValue y b ∧ b ≤ q := by
  obtain ⟨hfx, hfy⟩ := isFinite_of_measures_add hx hy h
  obtain ⟨a, ha⟩ := exists_hasValue hx hfx
  obtain ⟨b, hb⟩ := exists_hasValue hy hfy
  obtain ⟨r, hr, hmeasures | ⟨hinfinite, -⟩⟩ := ha.add hb
  · obtain rfl := Measures.unique h hmeasures
    have ha0 := ha.nonneg
    have hb0 := hb.nonneg
    exact ⟨⟨a, ha, hr.ge_of_le (Measures.short ha) (by linarith)⟩,
      ⟨b, hb, hr.ge_of_le (Measures.short hb) (by linarith)⟩⟩
  · rw [HasValue, hinfinite] at h
    cases h

theorem HasValue.of_mul (h : HasValue (x * y) q) (hx : NotNegative x) (hy : NotNegative y) :
    (∃ a, HasValue x a) ∧ ∃ b, HasValue y b := by
  obtain ⟨hfx, hfy⟩ := isFinite_of_measures_mul hx hy h
  exact ⟨exists_hasValue hx hfx, exists_hasValue hy hfy⟩

theorem NotNegative.foldl_add {β : Type} {f : β → Float} {l : List β}
    (hf : ∀ b ∈ l, NotNegative (f b)) (hx : NotNegative x) :
    NotNegative (l.foldl (fun sum b => sum + f b) x) := by
  induction l generalizing x with
  | nil => exact hx
  | cons b rest ih => exact ih (fun c hc => hf c (by simp [hc])) (hx.add (hf b (by simp)))

theorem plain_foldl_add {β : Type} {f : β → Float} {l : List β}
    (hf : ∀ b ∈ l, Plain (f b).toModel.unpack) (hx : Plain x.toModel.unpack) :
    Plain (l.foldl (fun sum b => sum + f b) x).toModel.unpack := by
  induction l generalizing x with
  | nil => exact hx
  | cons b rest ih =>
    obtain ⟨hb, hrest⟩ := List.forall_mem_cons.1 hf
    exact ih hrest (Plain.add hx hb).pack

theorem HasValue.of_foldl_add {β : Type} {f : β → Float} {l : List β}
    (h : HasValue (l.foldl (fun sum b => sum + f b) x) q) (hf : ∀ b ∈ l, NotNegative (f b))
    (hx : NotNegative x) :
    (∃ a, HasValue x a ∧ a ≤ q) ∧ ∀ b ∈ l, ∃ a, HasValue (f b) a ∧ a ≤ q := by
  induction l generalizing x with
  | nil => exact ⟨⟨q, h, le_rfl⟩, by simp⟩
  | cons b rest ih =>
    have hb := hf b (by simp)
    obtain ⟨⟨s, hs, hsq⟩, hrest⟩ := ih h (fun c hc => hf c (by simp [hc])) (hx.add hb)
    obtain ⟨⟨a, ha, has⟩, ⟨c, hc, hcs⟩⟩ := hs.of_add hx hb
    refine ⟨⟨a, ha, le_trans has hsq⟩, ?_⟩
    intro d hd
    rcases List.mem_cons.1 hd with rfl | hd
    · exact ⟨c, hc, le_trans hcs hsq⟩
    · exact hrest d hd

end Sums

section Infinity

variable {x y : Float} {q : ℚ}

theorem unpack_pack_infinity :
    unpack Format.binary64 (pack Format.binary64 (.infinity .positive)) = .infinity .positive :=
  unpack_packedInfinity .positive

theorem unpack_pack_notANumber :
    unpack Format.binary64 (pack Format.binary64 .notANumber) = .notANumber := unpack_packedNaN

theorem Measures.mul_infinity {u : UnpackedFloat} (h : Measures Format.binary64 u q) :
    (q = 0 ∧ UnpackedFloat.mul Format.binary64 u (.infinity .positive) = .notANumber) ∨
      (0 < q ∧ UnpackedFloat.mul Format.binary64 u (.infinity .positive) = .infinity .positive) := by
  cases h with
  | zero s => exact .inl ⟨rfl, rfl⟩
  | @finite m e hm h => exact .inr ⟨mul_pos (by exact_mod_cast hm) (two_zpow_pos e), rfl⟩

theorem HasValue.mul_infinite (hx : HasValue x q) (hy : IsInfinite y) :
    (q = 0 ∧ (x * y).toModel.unpack = .notANumber) ∨ (0 < q ∧ IsInfinite (x * y)) := by
  have hunpack : (x * y).toModel.unpack = unpack Format.binary64 (pack Format.binary64
      (UnpackedFloat.mul Format.binary64 x.toModel.unpack (.infinity .positive))) := by
    rw [← hy]
    rfl
  unfold IsInfinite
  rw [hunpack]
  rcases Measures.mul_infinity hx with ⟨hq, hmul⟩ | ⟨hq, hmul⟩
  · rw [hmul]
    exact .inl ⟨hq, unpack_pack_notANumber⟩
  · rw [hmul]
    exact .inr ⟨hq, unpack_pack_infinity⟩

theorem notANumber_add (hx : x.toModel.unpack = .notANumber) (y : Float) :
    (x + y).toModel.unpack = .notANumber := by
  have hunpack : (x + y).toModel.unpack = unpack Format.binary64 (pack Format.binary64
      (UnpackedFloat.add Format.binary64 .notANumber y.toModel.unpack)) := by
    rw [← hx]
    rfl
  rw [hunpack]
  exact unpack_pack_notANumber

theorem IsInfinite.isFinite_eq (hx : IsInfinite x) : x.isFinite = false := by
  have hunpack : x.isFinite = UnpackedFloat.isFinite (.infinity .positive) := by
    rw [← hx]
    rfl
  rw [hunpack]
  rfl

theorem IsInfinite.add (hx : IsInfinite x) (hy : HasValue y q) : IsInfinite (x + y) := by
  have hunpack : (x + y).toModel.unpack = unpack Format.binary64 (pack Format.binary64
      (UnpackedFloat.add Format.binary64 (.infinity .positive) y.toModel.unpack)) := by
    rw [← hx]
    rfl
  have hadd {u : UnpackedFloat} (hu : Measures Format.binary64 u q) :
      UnpackedFloat.add Format.binary64 (.infinity .positive) u = .infinity .positive := by
    cases hu <;> rfl
  rw [IsInfinite, hunpack, hadd hy]
  exact unpack_pack_infinity

theorem not_zero_lt_notANumber (hx : x.toModel.unpack = .notANumber) : ¬ 0.0 < x := by
  have hzero : (0.0 : Float).toModel.unpack = .zero .positive := rfl
  rw [lt_iff_unpack, hx, hzero]
  exact Bool.false_ne_true

theorem IsInfinite.zero_lt (hx : IsInfinite x) : 0.0 < x := by
  have hzero : (0.0 : Float).toModel.unpack = .zero .positive := rfl
  rw [lt_iff_unpack, hx, hzero]
  rfl

theorem IsInfinite.not_lt (hx : IsInfinite x) (hy : HasValue y q) : ¬ x < y := by
  have hlt {u : UnpackedFloat} (hu : Measures Format.binary64 u q) :
      UnpackedFloat.lt (.infinity .positive) u = false := by
    cases hu <;> rfl
  rw [lt_iff_unpack, hx, hlt hy]
  simp

theorem IsInfinite.not_lt_infinite {y : Float} (hx : IsInfinite x) (hy : IsInfinite y) :
    ¬ x < y := by
  have hlt : UnpackedFloat.lt (.infinity .positive) (.infinity .positive) = false := rfl
  rw [lt_iff_unpack, hx, hy, hlt]
  simp

theorem HasValue.lt_infinite (hx : HasValue x q) (hy : IsInfinite y) : x < y := by
  have hlt {u : UnpackedFloat} (hu : Measures Format.binary64 u q) :
      UnpackedFloat.lt u (.infinity .positive) = true := by
    cases hu <;> rfl
  rw [lt_iff_unpack, hy, hlt hx]

theorem IsInfinite.toUInt64_eq (hx : IsInfinite x) : x.toUInt64.toNat = 2 ^ 64 - 1 := by
  have hunpack : x.toUInt64 = UnpackedFloat.toUInt64 (.infinity .positive) := by
    rw [← hx]
    rfl
  rw [hunpack]
  decide +kernel

end Infinity

end Double

end VectorDisplay
