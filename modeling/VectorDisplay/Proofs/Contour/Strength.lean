import VectorDisplay.Contour.Edges
import VectorDisplay.Proofs.Double.Order
import VectorDisplay.Proofs.Grid
set_option autoImplicit false

namespace VectorDisplay

open Float.Model (Format UnpackedFloat)
open Float.Model.UnpackedFloat

namespace Double

variable {spec : Format} {u : UnpackedFloat}

theorem Plain.mul_finite (h : Plain u) {m : ℕ} {e : ℤ} (hm : 0 < m) :
    Plain (UnpackedFloat.mul spec u (.finite .positive m e hm)) := by
  cases h with
  | infinity => exact .infinity
  | zero s => exact .zero _
  | finite h => exact plain_roundWithAccuracy _ _ _

theorem plain_ofScientific (m : ℕ) {e : ℤ} (he : 0 ≤ e) :
    Plain (UnpackedFloat.ofScientific spec m e) := by
  unfold UnpackedFloat.ofScientific
  split
  · exact .zero _
  · split
    · exact .infinity
    · split
      · exact .zero _
      · exact plain_roundWithAccuracy _ _ _

theorem Plain.zero_le (h : Plain u) (s : Sign) : UnpackedFloat.le (.zero s) u = true := by
  cases h <;> rfl

theorem not_le_zero_of_zero_lt {s s' : Sign} (h : UnpackedFloat.lt (.zero s) u = true) :
    UnpackedFloat.le u (.zero s') = false := by
  cases u with
  | notANumber => rfl
  | infinity sign => cases sign <;> first | rfl | cases h
  | zero sign => cases h
  | finite sign m e hm => cases sign <;> first | rfl | cases h

theorem eq_zero_of_not_lt (hfinite : u.isFinite = true)
    (hbelow : UnpackedFloat.lt u (.zero .positive) = false)
    (habove : UnpackedFloat.lt (.zero .positive) u = false) : ∃ s, u = .zero s := by
  cases u with
  | notANumber => cases hfinite
  | infinity sign => cases hfinite
  | zero sign => exact ⟨sign, rfl⟩
  | finite sign m e hm =>
    cases sign with
    | positive => cases habove
    | negative => cases hbelow

end Double

namespace Edges

open Double

theorem lt_iff_unpack_single (a b : Float32) :
    a < b ↔ a.toModel.unpack.lt b.toModel.unpack = true := decide_eq_true_iff

theorem le_iff_unpack_single (a b : Float32) :
    a ≤ b ↔ a.toModel.unpack.le b.toModel.unpack = true := decide_eq_true_iff

theorem unpack_zero_single : (0.0 : Float32).toModel.unpack = .zero .positive := rfl

theorem plain_ofNat_single (n : ℕ) : Plain (Float32.ofNat n).toModel.unpack := by
  by_cases hsmall : n < 2 ^ 23
  · have hone : Float32.ofNat n = n.toUInt64.toFloat32 * Float32.ofBits 0x3F800000 := by
      simp only [Float32.ofNat, OfScientific.ofScientific, Float32.ofScientific, hsmall]
      rfl
    have hunit : (Float32.ofBits 0x3F800000).toModel.unpack =
        .finite .positive (2 ^ 23) (-23) (by decide) := rfl
    have hword : Plain (n.toUInt64.toFloat32).toModel.unpack := (plain_ofNat _).pack
    have hproduct : Plain (UnpackedFloat.mul Format.binary32 n.toUInt64.toFloat32.toModel.unpack
        (Float32.ofBits 0x3F800000).toModel.unpack) := by
      rw [hunit]
      exact hword.mul_finite _
    rw [hone]
    exact hproduct.pack
  · have hmodel : Float32.ofNat n = .ofModel (Float32.Model.ofScientific n 0) := by
      simp only [Float32.ofNat, OfScientific.ofScientific, Float32.ofScientific, hsmall]
      rfl
    rw [hmodel]
    exact (plain_ofScientific n (le_refl 0)).pack

theorem plain_length (g : Grid UInt8) (x y : Int) :
    Plain (gradientAt g x y).length.toModel.unpack := by
  have hsquares (a b : Int) :
      Plain (Float32.ofInt (a * a + b * b)).sqrt.toModel.unpack := by
    obtain ⟨n, hn⟩ := Int.eq_ofNat_of_zero_le
      (Int.add_nonneg (mul_self_nonneg a) (mul_self_nonneg b))
    rw [hn]
    exact (plain_ofNat_single n).sqrt.pack
  exact hsquares _ _

/-- What is left of the gradients of an image after thinning. -/
def strengths (g : Grid UInt8) : Grid Float32 := thin (gradients (blurColumns (blurRows g)))

theorem isInner_iff {α : Type} {g : Grid α} {x y : ℕ} :
    isInner g x y = true ↔ 1 ≤ x ∧ x + 1 < g.width ∧ 1 ≤ y ∧ y + 1 < g.height := by
  simp [isInner, and_assoc]

@[simp] theorem width_strengths (g : Grid UInt8) : (strengths g).width = g.width := rfl

@[simp] theorem height_strengths (g : Grid UInt8) : (strengths g).height = g.height := rfl

/-- Thinning keeps a length or leaves the cell dark, and leaves the whole rim dark. -/
theorem thin_eq_some {g : Grid Gradient} {x y : ℕ} {s : Float32}
    (h : (thin g).get? x y = some s) :
    s = 0.0 ∨ isInner (thin g) x y = true ∧ ∃ a, g.get? x y = some a ∧ s = a.length := by
  unfold thin at h
  replace h := Grid.get?_ofFn_eq_some h
  split at h
  · next hinner =>
    have hinside : isInner (thin g) x y = true := isInner_iff.2 (isInner_iff.1 hinner)
    split at h
    · exact .inl h.symm
    · next a ha =>
      rw [← h]
      exact (ite_eq_or_eq _ _ _).imp_right fun hkept => ⟨hinside, a, ha, hkept⟩
  · exact .inl h.symm

theorem plain_strength {g : Grid UInt8} {x y : ℕ} {s : Float32}
    (h : (strengths g).get? x y = some s) : Plain s.toModel.unpack := by
  rcases thin_eq_some h with rfl | ⟨-, a, ha, rfl⟩
  · exact .zero .positive
  · rw [← Grid.get?_ofFn_eq_some ha]
    exact plain_length _ _ _

theorem isInner_of_low_le {g : Grid UInt8} {low s : Float32} {x y : ℕ} (hlow : 0.0 < low)
    (h : (strengths g).get? x y = some s) (hs : low ≤ s) : isInner (strengths g) x y = true := by
  rcases thin_eq_some h with rfl | ⟨hinner, -⟩
  · rw [lt_iff_unpack_single, unpack_zero_single] at hlow
    rw [le_iff_unpack_single, unpack_zero_single, not_le_zero_of_zero_lt hlow] at hs
    cases hs
  · exact hinner

theorem low_le_of_zero {g : Grid UInt8} {low s : Float32} {x y : ℕ} (hfinite : low.isFinite = true)
    (hbelow : ¬ low < 0.0) (habove : ¬ 0.0 < low) (h : (strengths g).get? x y = some s) :
    low ≤ s := by
  rw [lt_iff_unpack_single, unpack_zero_single, Bool.not_eq_true] at hbelow habove
  obtain ⟨sign, hzero⟩ := eq_zero_of_not_lt hfinite hbelow habove
  rw [le_iff_unpack_single, hzero]
  exact (plain_strength h).zero_le sign

end Edges

end VectorDisplay
