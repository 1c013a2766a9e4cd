import Mathlib.Tactic.Linarith
import VectorDisplay.Projection
set_option autoImplicit false

namespace VectorDisplay

/-- Device coordinates at most one step apart. -/
def Near (a b : UInt8) : Prop := a.toNat ≤ b.toNat + 1 ∧ b.toNat ≤ a.toNat + 1

theorem Near.refl (a : UInt8) : Near a a := ⟨Nat.le_succ _, Nat.le_succ _⟩

theorem scaleAxis_le (value : Int32) (extent : UInt32) (range : Nat) :
    scaleAxis value extent range ≤ range := by
  unfold scaleAxis
  exact Nat.div_le_of_le_mul (Nat.mul_le_mul_right range (Nat.min_le_right _ _))

theorem scaleAxis_fine (value : Int32) (extent : UInt32) :
    2 * scaleAxis value extent deviceMax ≤ scaleAxis value extent fineMax ∧
      scaleAxis value extent fineMax ≤ 2 * scaleAxis value extent deviceMax + 2 := by
  unfold scaleAxis
  dsimp only
  have hpos : 0 < max extent.toNat 1 := by omega
  generalize max extent.toNat 1 = e at hpos ⊢
  have hv : min value.toNatClampNeg e ≤ e := Nat.min_le_right _ _
  generalize min value.toNatClampNeg e = v at hv ⊢
  have hlow : v * deviceMax / e * e ≤ v * deviceMax := Nat.div_mul_le_self _ _
  have hhigh : v * deviceMax < e * (v * deviceMax / e + 1) := Nat.lt_mul_div_succ _ hpos
  have hrange : v * fineMax = 2 * (v * deviceMax) + v := by
    simp only [fineMax, deviceMax]
    omega
  rw [hrange]
  constructor
  · rw [Nat.le_div_iff_mul_le hpos]
    linarith
  · rw [← Nat.lt_succ_iff, Nat.div_lt_iff_lt_mul hpos]
    linarith

theorem fold_le (fine : Nat) (odd : Bool) : fold fine odd ≤ deviceMax := Nat.min_le_right _ _

/-- Folding rounds to half: down for even samples and up for odd ones. -/
theorem fold_eq_min (fine : Nat) (odd : Bool) :
    fold fine odd = min ((fine + odd.toNat) / 2) deviceMax := by
  unfold fold
  cases odd with
  | false => simp
  | true =>
    simp only [and_true, Bool.toNat_true]
    split <;> omega

theorem fold_even (fine : Nat) : fold fine false = min (fine / 2) deviceMax :=
  fold_eq_min fine false

theorem fold_near {a f : Nat} (ha : a ≤ deviceMax) (hlow : 2 * a ≤ f + 1) (hhigh : f ≤ 2 * a + 2)
    (odd : Bool) : a ≤ fold f odd + 1 ∧ fold f odd ≤ a + 1 := by
  unfold fold
  split <;> omega

theorem toNat_ofNat_of_le {x : Nat} (hx : x ≤ deviceMax) : (UInt8.ofNat x).toNat = x :=
  UInt8.toNat_ofNat_of_lt' (lt_of_le_of_lt hx (by decide))

theorem near_ofNat {a b : Nat} (ha : a ≤ deviceMax) (hb : b ≤ deviceMax)
    (hab : a ≤ b + 1 ∧ b ≤ a + 1) : Near (.ofNat a) (.ofNat b) := by
  unfold Near
  rw [toNat_ofNat_of_le ha, toNat_ofNat_of_le hb]
  exact hab

namespace Projection

theorem toNat_place_of_dither {p : Projection} (h : p.dither = true) (pt : Point) (odd : Bool) :
    (p.place pt odd).1.toNat = fold (p.fine pt).1 odd ∧
      (p.place pt odd).2.toNat = fold (p.fine pt).2 odd := by
  unfold place
  rw [if_pos h]
  exact ⟨toNat_ofNat_of_le (fold_le _ _), toNat_ofNat_of_le (fold_le _ _)⟩

theorem toNat_place_of_plain {p : Projection} (h : ¬ p.dither = true) (pt : Point) (odd : Bool) :
    (p.place pt odd).1.toNat = scaleAxis pt.x p.width deviceMax ∧
      (p.place pt odd).2.toNat = deviceMax - scaleAxis pt.y p.height deviceMax := by
  unfold place
  rw [if_neg h]
  exact ⟨toNat_ofNat_of_le (scaleAxis_le _ _ _), toNat_ofNat_of_le (Nat.sub_le _ _)⟩

end Projection

theorem Projection.near_place (width height : UInt32) (pt : Point) (odd odd' : Bool) :
    Near ((⟨width, height, false⟩ : Projection).place pt odd).1
        ((⟨width, height, true⟩ : Projection).place pt odd').1 ∧
      Near ((⟨width, height, false⟩ : Projection).place pt odd).2
        ((⟨width, height, true⟩ : Projection).place pt odd').2 := by
  have hx := scaleAxis_fine pt.x width
  have hy := scaleAxis_fine pt.y height
  have hxMax := scaleAxis_le pt.x width deviceMax
  have hyMax := scaleAxis_le pt.y height deviceMax
  have hyFine := scaleAxis_le pt.y height fineMax
  have hfine : fineMax = 2 * deviceMax + 1 := rfl
  have hxFold := fold_near hxMax (Nat.le_succ_of_le hx.1) hx.2 odd'
  have hyFold := fold_near (Nat.sub_le deviceMax (scaleAxis pt.y height deviceMax))
    (show _ ≤ fineMax - scaleAxis pt.y height fineMax + 1 by omega) (by omega) odd'
  exact ⟨near_ofNat hxMax (fold_le _ _) hxFold, near_ofNat (Nat.sub_le _ _) (fold_le _ _) hyFold⟩

example : (⟨511, 511, false⟩ : Projection).variants ⟨3, 2⟩ = ⟨(1, 255), (1, 255)⟩ ∧
    (⟨511, 511, true⟩ : Projection).variants ⟨3, 2⟩ = ⟨(1, 254), (2, 255)⟩ := by decide +kernel

end VectorDisplay
