import VectorDisplay.Proofs.Projection
set_option autoImplicit false

namespace VectorDisplay

def signed64 (i : Int) : Checked Int :=
  if -2 ^ 63 ≤ i ∧ i < 2 ^ 63 then .ok i else .error .overflow

def unsigned (bits : Nat) (i : Int) : Checked Nat :=
  if 0 ≤ i ∧ i < 2 ^ bits then .ok i.toNat else .error .overflow

theorem signed64_natCast {n : Nat} (h : n < 2 ^ 63) : signed64 n = .ok (n : Int) :=
  if_pos ⟨by omega, by omega⟩

theorem unsigned_natCast {bits n : Nat} (h : n < 2 ^ bits) : unsigned bits n = .ok n :=
  if_pos ⟨Int.natCast_nonneg n, by exact_mod_cast h⟩

def scaleAxisInWords (value : Int32) (extent : UInt32) (range : Nat) : Checked Nat := do
  let extent : Nat := max extent.toNat 1
  let product ← signed64 (max 0 (min value.toInt extent) * range)
  unsigned 16 (product.tdiv extent)

def foldInWords (fine : Nat) (odd : Bool) : Checked UInt8 := do
  let halved ← unsigned 16 (fine / 2 + if fine % 2 = 1 ∧ odd then 1 else 0 : Nat)
  return .ofNat (← unsigned 8 (min halved deviceMax : Nat))

namespace Projection

def fineInWords (p : Projection) (pt : Point) : Checked (Nat × Nat) := do
  let x ← scaleAxisInWords pt.x p.width fineMax
  let down ← scaleAxisInWords pt.y p.height fineMax
  return (x, ← unsigned 16 (fineMax - down))

def placeInWords (p : Projection) (pt : Point) (odd : Bool) : Checked Place :=
  if p.dither then do
    let fine ← p.fineInWords pt
    return (← foldInWords fine.1 odd, ← foldInWords fine.2 odd)
  else do
    let x ← scaleAxisInWords pt.x p.width deviceMax
    let down ← scaleAxisInWords pt.y p.height deviceMax
    let y ← unsigned 16 (deviceMax - down)
    return (.ofNat (← unsigned 8 x), .ofNat (← unsigned 8 y))

end Projection

theorem clamp_eq_natCast (value : Int32) (extent : Nat) :
    max 0 (min value.toInt extent) = (min value.toNatClampNeg extent : Nat) := by
  rw [← Int32.toNat_toInt]
  omega

/-- Rewriting by this lemma keeps the kernel from evaluating the steps that follow. -/
theorem ok_bind {α β : Type} (a : α) (f : α → Checked β) : (Except.ok a : Checked α) >>= f = f a :=
  rfl

theorem scaleAxisInWords_eq (value : Int32) (extent : UInt32) {range : Nat} (h : range < 2 ^ 16) :
    scaleAxisInWords value extent range = .ok (scaleAxis value extent range) := by
  have hmoved : min value.toNatClampNeg (max extent.toNat 1) < 2 ^ 31 :=
    lt_of_le_of_lt (Nat.min_le_left _ _) value.toNatClampNeg_lt
  have hproduct : min value.toNatClampNeg (max extent.toNat 1) * range < 2 ^ 63 :=
    calc _ ≤ 2 ^ 31 * 2 ^ 16 := Nat.mul_le_mul hmoved.le h.le
      _ < 2 ^ 63 := by norm_num
  have hquotient : ((min value.toNatClampNeg (max extent.toNat 1) * range : Nat) : Int).tdiv
      (max extent.toNat 1 : Nat) = (scaleAxis value extent range : Nat) := rfl
  unfold scaleAxisInWords
  dsimp only
  rw [clamp_eq_natCast, ← Nat.cast_mul, signed64_natCast hproduct, ok_bind, hquotient]
  exact unsigned_natCast (lt_of_le_of_lt (scaleAxis_le value extent range) h)

theorem unsigned_sub_scaleAxis (value : Int32) (extent : UInt32) {range : Nat}
    (h : range < 2 ^ 16) :
    unsigned 16 (range - scaleAxis value extent range) =
      .ok (range - scaleAxis value extent range) := by
  rw [← Nat.cast_sub (scaleAxis_le value extent range)]
  exact unsigned_natCast (lt_of_le_of_lt (Nat.sub_le _ _) h)

theorem foldInWords_eq {fine : Nat} (h : fine ≤ fineMax) (odd : Bool) :
    foldInWords fine odd = .ok (.ofNat (fold fine odd)) := by
  have hfine : fineMax < 2 ^ 16 := by norm_num [fineMax, deviceMax]
  have hhalved : fine / 2 + (if fine % 2 = 1 ∧ odd then 1 else 0) < 2 ^ 16 := by
    split <;> omega
  have hplace : min (fine / 2 + if fine % 2 = 1 ∧ odd then 1 else 0) deviceMax < 2 ^ 8 :=
    lt_of_le_of_lt (fold_le fine odd) (by norm_num [deviceMax])
  unfold foldInWords fold
  rw [unsigned_natCast hhalved, ok_bind, unsigned_natCast hplace, ok_bind]
  rfl

namespace Projection

variable (p : Projection) (pt : Point) (odd : Bool)

theorem fine_le : (p.fine pt).1 ≤ fineMax ∧ (p.fine pt).2 ≤ fineMax :=
  ⟨scaleAxis_le pt.x p.width fineMax, Nat.sub_le fineMax _⟩

theorem fineInWords_eq : p.fineInWords pt = .ok (p.fine pt) := by
  have hfine : fineMax < 2 ^ 16 := by norm_num [fineMax, deviceMax]
  unfold fineInWords fine
  rw [scaleAxisInWords_eq _ _ hfine, ok_bind, scaleAxisInWords_eq _ _ hfine, ok_bind,
    unsigned_sub_scaleAxis _ _ hfine, ok_bind]
  rfl

theorem placeInWords_eq : p.placeInWords pt odd = .ok (p.place pt odd) := by
  unfold placeInWords place
  by_cases hdither : p.dither = true
  · have hle := p.fine_le pt
    rw [if_pos hdither, if_pos hdither, fineInWords_eq, ok_bind, foldInWords_eq hle.1, ok_bind,
      foldInWords_eq hle.2, ok_bind]
    rfl
  · have hdevice : deviceMax < 2 ^ 8 := by norm_num [deviceMax]
    have hdevice16 : deviceMax < 2 ^ 16 := by norm_num [deviceMax]
    have hx := scaleAxis_le pt.x p.width deviceMax
    have hy := Nat.sub_le deviceMax (scaleAxis pt.y p.height deviceMax)
    rw [if_neg hdither, if_neg hdither, scaleAxisInWords_eq _ _ hdevice16, ok_bind,
      scaleAxisInWords_eq _ _ hdevice16, ok_bind, unsigned_sub_scaleAxis _ _ hdevice16, ok_bind,
      unsigned_natCast (lt_of_le_of_lt hx hdevice), ok_bind,
      unsigned_natCast (lt_of_le_of_lt hy hdevice), ok_bind]
    rfl

end Projection

end VectorDisplay
