import Mathlib.Tactic.Linarith
import VectorDisplay.Proofs.Projection.Words
set_option autoImplicit false

namespace VectorDisplay

section Axis

variable {value : Int32} {extent : UInt32}

theorem scaleAxis_mono {a b : Int32} (h : a ≤ b) (extent : UInt32) (range : Nat) :
    scaleAxis a extent range ≤ scaleAxis b extent range := by
  have hnat : a.toNatClampNeg ≤ b.toNatClampNeg := Int.toNat_le_toNat (Int32.le_iff_toInt_le.1 h)
  exact Nat.div_le_div_right (Nat.mul_le_mul_right range (by omega))

theorem scaleAxis_floor (hlow : 0 ≤ value.toInt) (hhigh : value.toInt ≤ extent.toNat)
    (hextent : 1 ≤ extent.toNat) (range : Nat) :
    (scaleAxis value extent range * extent.toNat : Int) ≤ range * value.toInt ∧
      range * value.toInt < (scaleAxis value extent range + 1) * extent.toNat := by
  have hvalue : value.toInt = (value.toNatClampNeg : Int) := by
    rw [← Int32.toNat_toInt, Int.toNat_of_nonneg hlow]
  have hscaled : scaleAxis value extent range = range * value.toNatClampNeg / extent.toNat := by
    unfold scaleAxis
    dsimp only
    rw [Nat.max_eq_left hextent, Nat.min_eq_left (by omega), Nat.mul_comm]
  have hlower := Nat.div_mul_le_self (range * value.toNatClampNeg) extent.toNat
  have hupper := Nat.lt_mul_div_succ (range * value.toNatClampNeg) hextent
  rw [Nat.mul_comm extent.toNat] at hupper
  rw [hscaled, hvalue]
  exact ⟨by exact_mod_cast hlower, by exact_mod_cast hupper⟩

/-- The coordinate on an axis that is nearest to a given one. -/
def nearestOn (value : Int32) (extent : UInt32) : Int32 :=
  .ofInt (max 0 (min value.toInt extent.toNat))

theorem toInt_nearestOn (value : Int32) (extent : UInt32) :
    (nearestOn value extent).toInt = max 0 (min value.toInt extent.toNat) := by
  have hhigh := value.toInt_lt
  exact Int32.toInt_ofInt_of_le (by omega) (by omega)

theorem sq_add_sq_nearestOn_le (value : Int32) {r : Int} (hlow : 0 ≤ r) (hhigh : r ≤ extent.toNat) :
    (value.toInt - (nearestOn value extent).toInt) ^ 2 + ((nearestOn value extent).toInt - r) ^ 2 ≤
      (value.toInt - r) ^ 2 := by
  rw [toInt_nearestOn]
  rcases lt_or_ge value.toInt 0 with hbelow | hinside
  · rw [max_eq_left (by omega)]
    nlinarith
  · rcases le_or_gt value.toInt extent.toNat with hinside' | habove
    · rw [min_eq_left hinside', max_eq_right hinside]
      nlinarith
    · rw [min_eq_right habove.le, max_eq_right (by omega)]
      nlinarith

theorem scaleAxis_nearestOn (value : Int32) (hextent : 1 ≤ extent.toNat) (range : Nat) :
    scaleAxis (nearestOn value extent) extent range = scaleAxis value extent range := by
  have hnearest := toInt_nearestOn value extent
  have hmoved : min (nearestOn value extent).toNatClampNeg extent.toNat =
      min value.toNatClampNeg extent.toNat := by
    rw [← Int32.toNat_toInt, ← Int32.toNat_toInt, hnearest]
    omega
  unfold scaleAxis
  dsimp only
  rw [Nat.max_eq_left hextent, hmoved]

end Axis

section Steps

variable {scaled w exact : Int}

theorem abs_mul_sub_lt (hlow : scaled * w ≤ exact) (hhigh : exact < (scaled + 1) * w) :
    |scaled * w - exact| < w := by
  rw [abs_lt]
  constructor <;> linarith

theorem abs_mul_sub_lt_two_mul {near : Int} (hlow : scaled * w ≤ exact)
    (hhigh : exact < (scaled + 1) * w) (hbelow : scaled ≤ near + 1) (habove : near ≤ scaled + 1) :
    |near * w - exact| < 2 * w := by
  have hw : 0 ≤ w := by linarith
  have hbelow := mul_le_mul_of_nonneg_right hbelow hw
  have habove := mul_le_mul_of_nonneg_right habove hw
  rw [abs_lt]
  constructor <;> linarith

end Steps

section Fold

theorem fold_mono {a b : Nat} (h : a ≤ b) (odd : Bool) : fold a odd ≤ fold b odd := by
  rw [fold_eq_min, fold_eq_min]
  omega

theorem two_mul_fold_near {fine : Nat} (h : fine ≤ fineMax) (odd : Bool) :
    fine ≤ 2 * fold fine odd + 1 ∧ 2 * fold fine odd ≤ fine + 1 := by
  have hfine : fineMax = 2 * deviceMax + 1 := rfl
  have hodd := Bool.toNat_le odd
  rw [fold_eq_min]
  omega

end Fold

namespace Point

def gap (a b : Point) : Int := (a.x.toInt - b.x.toInt) ^ 2 + (a.y.toInt - b.y.toInt) ^ 2

theorem gap_pos {a b : Point} (h : a ≠ b) : 0 < a.gap b := by
  have hdiffer : a.x.toInt - b.x.toInt ≠ 0 ∨ a.y.toInt - b.y.toInt ≠ 0 := by
    by_contra heq
    obtain ⟨hx, hy⟩ := not_or.1 heq
    rw [not_not, sub_eq_zero, Int32.toInt_inj] at hx hy
    exact h ((Point.mk.injEq ..).mpr ⟨hx, hy⟩)
  rcases hdiffer with hx | hy
  · exact add_pos_of_pos_of_nonneg (by positivity) (by positivity)
  · exact add_pos_of_nonneg_of_pos (by positivity) (by positivity)

end Point

namespace Projection

variable (p : Projection)

/-- Points of the picture, with those on its far edges. -/
structure Covers (pt : Point) : Prop where
  x_nonneg : 0 ≤ pt.x.toInt
  x_le : pt.x.toInt ≤ p.width.toNat
  y_nonneg : 0 ≤ pt.y.toInt
  y_le : pt.y.toInt ≤ p.height.toNat

def nearest (pt : Point) : Point := ⟨nearestOn pt.x p.width, nearestOn pt.y p.height⟩

theorem covers_nearest (pt : Point) : p.Covers (p.nearest pt) := by
  have hx := toInt_nearestOn pt.x p.width
  have hy := toInt_nearestOn pt.y p.height
  constructor <;> simp only [nearest] <;> omega

theorem gap_nearest_lt (pt : Point) {q : Point} (hq : p.Covers q) (hne : q ≠ p.nearest pt) :
    pt.gap (p.nearest pt) < pt.gap q := by
  have hx := sq_add_sq_nearestOn_le pt.x hq.x_nonneg hq.x_le
  have hy := sq_add_sq_nearestOn_le pt.y hq.y_nonneg hq.y_le
  have hpos := Point.gap_pos (Ne.symm hne)
  simp only [Point.gap, nearest] at hpos ⊢
  linarith

theorem place_nearest (hwidth : 1 ≤ p.width.toNat) (hheight : 1 ≤ p.height.toNat) (pt : Point)
    (odd : Bool) : p.place (p.nearest pt) odd = p.place pt odd := by
  simp only [place, fine, nearest, scaleAxis_nearestOn _ hwidth, scaleAxis_nearestOn _ hheight]

variable (odd : Bool) {pt qt : Point}

theorem place_fst_mono (h : pt.x ≤ qt.x) : (p.place pt odd).1 ≤ (p.place qt odd).1 := by
  rw [UInt8.le_iff_toNat_le]
  by_cases hdither : p.dither = true
  · rw [(toNat_place_of_dither hdither pt odd).1, (toNat_place_of_dither hdither qt odd).1]
    exact fold_mono (scaleAxis_mono h _ _) odd
  · rw [(toNat_place_of_plain hdither pt odd).1, (toNat_place_of_plain hdither qt odd).1]
    exact scaleAxis_mono h _ _

theorem place_snd_anti (h : pt.y ≤ qt.y) : (p.place qt odd).2 ≤ (p.place pt odd).2 := by
  rw [UInt8.le_iff_toNat_le]
  by_cases hdither : p.dither = true
  · rw [(toNat_place_of_dither hdither pt odd).2, (toNat_place_of_dither hdither qt odd).2]
    exact fold_mono (Nat.sub_le_sub_left (scaleAxis_mono h _ _) _) odd
  · rw [(toNat_place_of_plain hdither pt odd).2, (toNat_place_of_plain hdither qt odd).2]
    exact Nat.sub_le_sub_left (scaleAxis_mono h _ _) _

section Covered

variable {p} {odd} (h : p.Covers pt) (hwidth : 1 ≤ p.width.toNat) (hheight : 1 ≤ p.height.toNat)
include h hwidth hheight

theorem abs_place_lt_of_plain (hplain : ¬ p.dither = true) :
    |((p.place pt odd).1.toNat * p.width.toNat - 255 * pt.x.toInt : Int)| < p.width.toNat ∧
      |((255 - (p.place pt odd).2.toNat) * p.height.toNat - 255 * pt.y.toInt : Int)| <
        p.height.toNat := by
  obtain ⟨hxLow, hxHigh⟩ := scaleAxis_floor h.x_nonneg h.x_le hwidth deviceMax
  obtain ⟨hyLow, hyHigh⟩ := scaleAxis_floor h.y_nonneg h.y_le hheight deviceMax
  have hmax : (deviceMax : Int) = 255 := rfl
  obtain ⟨hx, hy⟩ := toNat_place_of_plain hplain pt odd
  have hturned : (255 - (p.place pt odd).2.toNat : Int) = scaleAxis pt.y p.height deviceMax := by
    rw [hy, Nat.cast_sub (scaleAxis_le _ _ _), hmax, sub_sub_cancel]
  rw [hmax] at hxLow hxHigh hyLow hyHigh
  rw [hx, hturned]
  exact ⟨abs_mul_sub_lt hxLow hxHigh, abs_mul_sub_lt hyLow hyHigh⟩

theorem abs_place_lt_of_dither (hdither : p.dither = true) :
    |(2 * (p.place pt odd).1.toNat * p.width.toNat - 511 * pt.x.toInt : Int)| <
        2 * p.width.toNat ∧
      |((511 - 2 * (p.place pt odd).2.toNat) * p.height.toNat - 511 * pt.y.toInt : Int)| <
        2 * p.height.toNat := by
  obtain ⟨hxLow, hxHigh⟩ := scaleAxis_floor h.x_nonneg h.x_le hwidth fineMax
  obtain ⟨hyLow, hyHigh⟩ := scaleAxis_floor h.y_nonneg h.y_le hheight fineMax
  have hmax : (fineMax : Int) = 511 := by norm_num [fineMax, deviceMax]
  obtain ⟨hx, hy⟩ := toNat_place_of_dither hdither pt odd
  obtain ⟨hxFine, hyFine⟩ := p.fine_le pt
  have hxFold := two_mul_fold_near hxFine odd
  have hyFold := two_mul_fold_near hyFine odd
  have hturned : ((p.fine pt).2 : Int) = 511 - scaleAxis pt.y p.height fineMax := by
    rw [← hmax]
    exact Nat.cast_sub (scaleAxis_le _ _ _)
  rw [← hx, show (p.fine pt).1 = scaleAxis pt.x p.width fineMax from rfl] at hxFold
  rw [← hy] at hyFold
  rw [hmax] at hxLow hxHigh hyLow hyHigh
  exact ⟨abs_mul_sub_lt_two_mul hxLow hxHigh (by omega) (by omega),
    abs_mul_sub_lt_two_mul hyLow hyHigh (by omega) (by omega)⟩

end Covered

/-- In a picture that has pixels, numbers fit their words, points outside are projected like the
nearest ones of the picture, the order of coordinates is kept to the right and turned around
downwards, and places are off by less than a step of the device, dithered ones by less than two steps
at twice the resolution. -/
theorem place_accurate (p : Projection) (hwidth : 1 ≤ p.width.toNat) (hheight : 1 ≤ p.height.toNat)
    (odd : Bool) :
    (∀ pt, p.placeInWords pt odd = .ok (p.place pt odd)) ∧
    (∀ pt, ∃ q, p.Covers q ∧ (∀ r, p.Covers r → r ≠ q → pt.gap q < pt.gap r) ∧
      p.place pt odd = p.place q odd) ∧
    (∀ pt qt, pt.x ≤ qt.x → (p.place pt odd).1 ≤ (p.place qt odd).1) ∧
    (∀ pt qt, pt.y ≤ qt.y → (p.place qt odd).2 ≤ (p.place pt odd).2) ∧
    ∀ pt, p.Covers pt →
      if p.dither then
        |(2 * (p.place pt odd).1.toNat * p.width.toNat - 511 * pt.x.toInt : Int)| <
            2 * p.width.toNat ∧
          |((511 - 2 * (p.place pt odd).2.toNat) * p.height.toNat - 511 * pt.y.toInt : Int)| <
            2 * p.height.toNat
      else
        |((p.place pt odd).1.toNat * p.width.toNat - 255 * pt.x.toInt : Int)| < p.width.toNat ∧
          |((255 - (p.place pt odd).2.toNat) * p.height.toNat - 255 * pt.y.toInt : Int)| <
            p.height.toNat := by
  refine ⟨fun pt => p.placeInWords_eq pt odd, fun pt => ?_, fun _ _ => p.place_fst_mono odd,
    fun _ _ => p.place_snd_anti odd, fun pt hcovers => ?_⟩
  · exact ⟨p.nearest pt, p.covers_nearest pt, fun _ => p.gap_nearest_lt pt,
      (p.place_nearest hwidth hheight pt odd).symm⟩
  · split
    · next hdither => exact abs_place_lt_of_dither hcovers hwidth hheight hdither
    · next hplain => exact abs_place_lt_of_plain hcovers hwidth hheight hplain

theorem place_accurate_dithered :
    (⟨100, 70, true⟩ : Projection).Covers ⟨34, 20⟩ ∧
      (⟨100, 70, true⟩ : Projection).placeInWords ⟨34, 20⟩ true = .ok (87, 183) ∧
      |(2 * 87 * 100 - 511 * 34 : Int)| < 2 * 100 ∧
      |((511 - 2 * 183) * 70 - 511 * 20 : Int)| < 2 * 70 := by
  have hcovers : (⟨100, 70, true⟩ : Projection).Covers ⟨34, 20⟩ := by constructor <;> decide
  have hplace : (⟨100, 70, true⟩ : Projection).place ⟨34, 20⟩ true = (87, 183) := by
    decide +kernel
  obtain ⟨hwords, -, -, -, hoff⟩ := place_accurate ⟨100, 70, true⟩ (by decide) (by decide) true
  have hnear := hoff _ hcovers
  rw [hplace, if_pos rfl] at hnear
  exact ⟨hcovers, (hwords _).trans (congrArg _ hplace), hnear.1, hnear.2⟩

end Projection

end VectorDisplay
