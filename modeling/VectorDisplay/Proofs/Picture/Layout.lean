import Mathlib.Algebra.Order.Ring.Nat
import VectorDisplay.Proofs.Picture
/-!
How a picture lies in its bytes. Main statements: bytes make a picture exactly where they reach over all
of its pixels, unless the reach itself is no 64-bit word; and the working copy is what is left of the
rows when the bytes are cut at every stride, pixel by pixel what brightness tells.
-/

set_option autoImplicit false

namespace VectorDisplay

namespace Picture

section Making

variable {data : ByteArray} {width height : UInt32} {stride : Nat}

def Shaped (width height : UInt32) (stride : Nat) : Prop :=
  0 < width.toNat ∧ 0 < height.toNat ∧ width.toNat ≤ stride

/-- The bytes are in the picture as they came. -/
structure LaidOn (p : Picture) (data : ByteArray) (width height : UInt32) (stride : Nat) :
    Prop where
  data_eq : p.data = data
  width_eq : p.width = width
  height_eq : p.height = height
  stride_eq : p.stride = stride
  time_eq : p.time = none

def Refused (result : Checked (Except Error Picture)) : Prop :=
  ∃ error, result = .ok (.error error) ∧ error.category = "validation"

/-- What can come of making a picture. -/
theorem ofStride_cases (data : ByteArray) (width height : UInt32) (stride : Nat) :
    (¬ Shaped width height stride ∧ Refused (ofStride data width height stride)) ∨
    (Shaped width height stride ∧ wordLimit ≤ span width height stride ∧
      ofStride data width height stride = .error .overflow) ∨
    (Shaped width height stride ∧ span width height stride < wordLimit ∧
      data.size < span width height stride ∧ Refused (ofStride data width height stride)) ∨
    (Shaped width height stride ∧ span width height stride < wordLimit ∧
      span width height stride ≤ data.size ∧
      ∃ p, ofStride data width height stride = .ok (.ok p) ∧
        p.LaidOn data width height stride) := by
  unfold ofStride
  split
  · next hw => exact .inl ⟨fun h => Nat.ne_of_gt h.1 hw, _, rfl, rfl⟩
  · next hw =>
    split
    · next hh => exact .inl ⟨fun h => Nat.ne_of_gt h.2.1 hh, _, rfl, rfl⟩
    · next hh =>
      split
      · next hs => exact .inl ⟨fun h => Nat.not_lt.2 h.2.2 hs, _, rfl, rfl⟩
      · next hs =>
        have hshaped : Shaped width height stride :=
          ⟨Nat.pos_of_ne_zero hw, Nat.pos_of_ne_zero hh, Nat.le_of_not_lt hs⟩
        split
        · next hword =>
          split
          · next hd => exact .inr (.inr (.inl ⟨hshaped, hword, hd, _, rfl, rfl⟩))
          · next hd =>
            exact .inr (.inr (.inr ⟨hshaped, hword, Nat.le_of_not_lt hd, _, rfl,
              ⟨rfl, rfl, rfl, rfl, rfl⟩⟩))
        · next hword => exact .inr (.inl ⟨hshaped, Nat.le_of_not_lt hword, rfl⟩)

theorem span_lt_wordLimit (hstride : stride < 2 ^ 32) : span width height stride < wordLimit := by
  have hw := width.toNat_lt
  have hh := height.toNat_lt
  have hproduct : stride * (height.toNat - 1) ≤ (2 ^ 32 - 1) * (2 ^ 32 - 2) :=
    Nat.mul_le_mul (by omega) (by omega)
  unfold span wordLimit
  omega

theorem exists_ofStride_eq_ok_iff (hmemory : data.size ≤ addressLimit) :
    (∃ p, ofStride data width height stride = .ok (.ok p)) ↔
      Shaped width height stride ∧ span width height stride ≤ data.size := by
  have hword : addressLimit < wordLimit := by decide
  rcases ofStride_cases data width height stride with ⟨hnot, error, herror, -⟩ |
    ⟨-, hfar, hfault⟩ | ⟨-, -, hfew, error, herror, -⟩ | ⟨hshaped, -, hreach, p, hp, -⟩
  · simp [herror, hnot]
  · have hfew : data.size < span width height stride := by omega
    simp [hfault, hfew]
  · simp [herror, hfew]
  · simp [hp, hshaped, hreach]

theorem ofStride_eq_error_iff {fault : Fault} :
    ofStride data width height stride = .error fault ↔
      fault = .overflow ∧ Shaped width height stride ∧ wordLimit ≤ span width height stride := by
  rcases ofStride_cases data width height stride with ⟨hnot, error, herror, -⟩ |
    ⟨hshaped, hfar, hfault⟩ | ⟨-, hnear, -, error, herror, -⟩ | ⟨-, hnear, -, p, hp, -⟩
  · simp [herror, hnot]
  · simp [hfault, hshaped, hfar, eq_comm]
  · simp [herror, hnear]
  · simp [hp, hnear]

theorem ofStride_eq_ok {result : Except Error Picture}
    (h : ofStride data width height stride = .ok result) :
    (∃ p, result = .ok p ∧ p.LaidOn data width height stride) ∨
      ∃ error, result = .error error ∧ error.category = "validation" := by
  rcases ofStride_cases data width height stride with ⟨-, error, herror, hcategory⟩ |
    ⟨-, -, hfault⟩ | ⟨-, -, -, error, herror, hcategory⟩ | ⟨-, -, -, p, hp, hlaid⟩
  · rw [herror] at h
    cases h
    exact .inr ⟨error, rfl, hcategory⟩
  · rw [hfault] at h
    cases h
  · rw [herror] at h
    cases h
    exact .inr ⟨error, rfl, hcategory⟩
  · rw [hp] at h
    cases h
    exact .inl ⟨p, rfl, hlaid⟩

theorem exists_ofStride (hstride : stride < 2 ^ 32) :
    ∃ result, ofStride data width height stride = .ok result := by
  cases hresult : ofStride data width height stride with
  | ok result => exact ⟨result, rfl⟩
  | error fault =>
    have hfar := (ofStride_eq_error_iff.1 hresult).2.2
    exact absurd (span_lt_wordLimit hstride) (Nat.not_lt.2 hfar)

/-- Bytes make a picture exactly where neither side is empty, rows do not overlap, and the bytes reach
over the last pixel, and other bytes are refused. Only a reach that is no 64-bit word is a fault, and
that takes a stride of more than 32 bits. -/
theorem ofStride_checks (data : ByteArray) (width height : UInt32) (stride : Nat)
    (hmemory : data.size ≤ addressLimit) :
    ((∃ p, ofStride data width height stride = .ok (.ok p)) ↔
      0 < width.toNat ∧ 0 < height.toNat ∧ width.toNat ≤ stride ∧
        stride * (height.toNat - 1) + width.toNat ≤ data.size) ∧
    (∀ fault, ofStride data width height stride = .error fault ↔
      fault = .overflow ∧ 0 < width.toNat ∧ 0 < height.toNat ∧ width.toNat ≤ stride ∧
        2 ^ 64 ≤ stride * (height.toNat - 1) + width.toNat) ∧
    (∀ p, ofStride data width height stride = .ok (.ok p) →
      p.LaidOn data width height stride) ∧
    (∀ error, ofStride data width height stride = .ok (.error error) →
      error.category = "validation") ∧
    (stride < 2 ^ 32 → ∃ result, ofStride data width height stride = .ok result) ∧
    ∃ result, ofBytes data width height = .ok result := by
  refine ⟨?_, fun fault => ?_, fun p hp => ?_, fun error herror => ?_, exists_ofStride,
    exists_ofStride width.toNat_lt⟩
  · simpa only [Shaped, span, and_assoc] using exists_ofStride_eq_ok_iff hmemory
  · have hlimit : wordLimit = 2 ^ 64 := by decide
    simpa only [Shaped, span, hlimit, and_assoc] using ofStride_eq_error_iff
  · rcases ofStride_eq_ok hp with ⟨q, hq, hlaid⟩ | ⟨error, herror, -⟩
    · cases hq
      exact hlaid
    · cases herror
  · rcases ofStride_eq_ok herror with ⟨p, hp, -⟩ | ⟨e, he, hcategory⟩
    · cases hp
    · cases he
      exact hcategory

theorem ofStride_checks_far :
    (ByteArray.empty.size ≤ addressLimit) ∧
      ofStride .empty 1 3 (2 ^ 63) = .error .overflow ∧
      (∃ p, ofStride ⟨#[7, 0, 8, 0, 9]⟩ 1 3 2 = .ok (.ok p) ∧ p.time = none) ∧
      ¬ ∃ p, ofStride ⟨#[7, 0, 8, 0]⟩ 1 3 2 = .ok (.ok p) := by
  have hempty : ByteArray.empty.size ≤ addressLimit := by decide
  refine ⟨hempty, ?_, ?_, ?_⟩
  · refine ((ofStride_checks .empty 1 3 (2 ^ 63) hempty).2.1 .overflow).2 ?_
    decide
  · obtain ⟨hmade, -, hlaid, -⟩ := ofStride_checks ⟨#[7, 0, 8, 0, 9]⟩ 1 3 2 (by decide)
    obtain ⟨p, hp⟩ := hmade.2 (by decide)
    exact ⟨p, hp, (hlaid p hp).time_eq⟩
  · refine fun hmade => ?_
    have hfew := (ofStride_checks ⟨#[7, 0, 8, 0]⟩ 1 3 2 (by decide)).1.1 hmade
    revert hfew
    decide

end Making

section Copying

/-- Bytes cut at every stride; the last row has what is left. -/
def rowsOf (stride : Nat) : List UInt8 → List (List UInt8)
  | [] => []
  | b :: rest => (b :: rest.take (stride - 1)) :: rowsOf stride (rest.drop (stride - 1))
termination_by bytes => bytes.length

/-- The leading bytes of each row; a row that has too few would be read beyond its end. -/
def leading (width : Nat) : List (List UInt8) → Checked (List UInt8)
  | [] => .ok []
  | row :: rest =>
    if width ≤ row.length then
      match leading width rest with
      | .error fault => .error fault
      | .ok bytes => .ok (row.take width ++ bytes)
    else .error .outside

def filling (width height : Nat) (bytes : List UInt8) : Grid UInt8 :=
  if h : bytes.length = width * height then ⟨width, height, bytes.toArray, h⟩
  else .ofFn width height fun _ _ => 0

/-- A copy from rows that are cut at every stride, into room for all pixels. -/
def cutCopy (p : Picture) : Checked (Grid UInt8) :=
  match setAside (p.width.toNat * p.height.toNat) 1 with
  | .error fault => .error fault
  | .ok () =>
    match leading p.width.toNat ((rowsOf p.stride p.data.data.toList).take p.height.toNat) with
    | .error fault => .error fault
    | .ok bytes => .ok (filling p.width.toNat p.height.toNat bytes)

variable {stride : Nat} {bytes : List UInt8}

theorem rowsOf_cut (hstride : 0 < stride) (hbytes : bytes ≠ []) :
    rowsOf stride bytes = bytes.take stride :: rowsOf stride (bytes.drop stride) := by
  obtain ⟨m, rfl⟩ := Nat.exists_eq_add_of_le' hstride
  cases bytes with
  | nil => exact absurd rfl hbytes
  | cons b rest =>
    rw [rowsOf]
    rfl

theorem leading_rowsOf {width n : Nat} (hwidth : 0 < width) (hle : width ≤ stride)
    (hreach : ∀ y < n, y * stride + width ≤ bytes.length) :
    leading width ((rowsOf stride bytes).take n) =
      .ok ((List.range n).flatMap fun y => (bytes.drop (y * stride)).take width) := by
  induction n generalizing bytes with
  | zero => rfl
  | succ n ih =>
    have hfirst : width ≤ bytes.length := by simpa using hreach 0 (Nat.succ_pos n)
    have hbytes : bytes ≠ [] := List.length_pos_iff.1 (by omega)
    have hrow : width ≤ (bytes.take stride).length := by
      rw [List.length_take]
      omega
    have hrest : ∀ y < n, y * stride + width ≤ (bytes.drop stride).length := by
      intro y hy
      have := hreach (y + 1) (by omega)
      rw [Nat.succ_mul] at this
      rw [List.length_drop]
      omega
    have htake : (bytes.take stride).take width = bytes.take width := by
      rw [List.take_take, Nat.min_eq_left hle]
    rw [rowsOf_cut (by omega) hbytes, List.take_succ_cons, leading, if_pos hrow, ih hrest, htake,
      List.range_succ_eq_map, List.flatMap_cons, List.flatMap_map]
    simp [List.drop_drop, Nat.succ_mul, Nat.add_comm]

variable (p : Picture)

theorem toList_row (y : Nat) :
    (p.row y).toList = (p.data.data.toList.drop (y * p.stride)).take p.width.toNat := by
  rw [row, ByteArray.data_extract, Array.toList_extract, List.extract, Nat.add_sub_cancel_left]

theorem toList_rows (n : Nat) : (p.rows n).toList =
    (List.range n).flatMap fun y =>
      (p.data.data.toList.drop (y * p.stride)).take p.width.toNat := by
  induction n with
  | zero => rfl
  | succ n ih =>
    rw [rows, Array.toList_append, ih, toList_row, List.range_succ, List.flatMap_append]
    simp

theorem row_le_size {y : Nat} (hy : y < p.height.toNat) :
    y * p.stride + p.width.toNat ≤ p.data.size := by
  have hlast := p.index_lt (x := p.width.toNat - 1) (Nat.sub_lt p.width_pos Nat.one_pos) hy
  have := p.width_pos
  omega

theorem pixels_le_size : p.width.toNat * p.height.toNat ≤ p.data.size := by
  obtain ⟨n, hn⟩ := Nat.exists_eq_add_of_le' p.height_pos
  have hrows : p.width.toNat * n ≤ n * p.stride := by
    rw [Nat.mul_comm]
    exact Nat.mul_le_mul_left n p.width_le_stride
  have := p.row_le_size (y := n) (by omega)
  rw [hn, Nat.mul_succ]
  omega

theorem cutCopy_eq (hmemory : p.data.size ≤ addressLimit) : p.cutCopy = .ok p.workingCopy := by
  have hroom : setAside (p.width.toNat * p.height.toNat) 1 = .ok () := by
    have := p.pixels_le_size
    exact if_pos (by omega)
  have hleading := leading_rowsOf (n := p.height.toNat) p.width_pos p.width_le_stride
    fun y hy => p.row_le_size hy
  rw [← toList_rows] at hleading
  have hlength : (p.rows p.height.toNat).toList.length = p.width.toNat * p.height.toNat :=
    p.size_rows (Nat.le_refl _)
  simp only [cutCopy, hroom, hleading, filling, dif_pos hlength]
  rfl

theorem pixel?_eq_getElem? {x y : Nat} (hx : x < p.width.toNat) (hy : y < p.height.toNat) :
    p.pixel? x y = p.data[y * p.stride + x]? := by
  rw [pixel?, dif_pos ⟨hx, hy⟩, getElem?_pos p.data _ (p.index_lt hx hy)]

def Shows (x y : Int32) : Prop :=
  (0 ≤ x.toInt ∧ x.toInt < p.width.toNat) ∧ 0 ≤ y.toInt ∧ y.toInt < p.height.toNat

instance (x y : Int32) : Decidable (p.Shows x y) := inferInstanceAs (Decidable (_ ∧ _))

variable {p} {x y : Int32}

theorem Shows.pixel?_eq (h : p.Shows x y) :
    p.pixel? x.toNatClampNeg y.toNatClampNeg = some (p.brightness x y) := by
  obtain ⟨⟨hleft, hright⟩, habove, hbelow⟩ := h
  have hin : ¬ (x < 0 ∨ y < 0) := by
    rw [Int32.lt_iff_toInt_lt, Int32.lt_iff_toInt_lt, Int32.toInt_zero]
    omega
  have hx : x.toNatClampNeg < p.width.toNat := by
    rw [← Int32.toNat_toInt]
    omega
  have hy : y.toNatClampNeg < p.height.toNat := by
    rw [← Int32.toNat_toInt]
    omega
  obtain ⟨v, hv⟩ := Option.isSome_iff_exists.1 (pixel?_isSome_iff.2 ⟨hx, hy⟩)
  rw [brightness, if_neg hin, hv, Option.getD_some]

theorem brightness_eq_zero (h : ¬ p.Shows x y) : p.brightness x y = 0 := by
  unfold brightness
  split
  · rfl
  · next hin =>
    rw [Int32.lt_iff_toInt_lt, Int32.lt_iff_toInt_lt, Int32.toInt_zero] at hin
    rw [pixel?_eq_none, Option.getD_none]
    rintro ⟨hx, hy⟩
    rw [← Int32.toNat_toInt] at hx hy
    exact h ⟨⟨by omega, by omega⟩, by omega, by omega⟩

/-- The working copy is what is left of the rows that the bytes are cut into: a cut row is never too
short, and the bytes are as many as the pixels. Every pixel of it is the byte of the picture that the
pixel has, which lies within the data, and what brightness tells; outside the picture it is black. -/
theorem workingCopy_agrees (p : Picture) (hmemory : p.data.size ≤ addressLimit) :
    p.cutCopy = .ok p.workingCopy ∧
    p.workingCopy.width = p.width.toNat ∧ p.workingCopy.height = p.height.toNat ∧
    p.workingCopy.cells.size = p.width.toNat * p.height.toNat ∧
    (∀ x < p.width.toNat, ∀ y < p.height.toNat, y * p.stride + x < p.data.size ∧
      p.workingCopy.get? x y = p.data[y * p.stride + x]?) ∧
    (∀ x y : Int32, p.Shows x y →
      p.workingCopy.get? x.toNatClampNeg y.toNatClampNeg = some (p.brightness x y)) ∧
    ∀ x y : Int32, ¬ p.Shows x y → p.brightness x y = 0 := by
  refine ⟨p.cutCopy_eq hmemory, rfl, rfl, p.workingCopy.size_eq, fun x hx y hy => ?_,
    fun x y h => ?_, fun x y => brightness_eq_zero⟩
  · rw [get?_workingCopy]
    exact ⟨p.index_lt hx hy, p.pixel?_eq_getElem? hx hy⟩
  · rw [get?_workingCopy]
    exact h.pixel?_eq

def padded : Picture :=
  ⟨⟨#[1, 2, 3, 99, 4, 5, 6]⟩, 3, 2, 4, none, by decide, by decide, by decide, by decide⟩

theorem workingCopy_agrees_padded :
    padded.data.size ≤ addressLimit ∧ padded.cutCopy = .ok padded.workingCopy ∧
      padded.workingCopy.get? 2 1 = some 6 ∧ padded.brightness 2 1 = 6 ∧
      padded.brightness 3 0 = 0 ∧ padded.brightness (-1) 0 = 0 := by
  have hmemory : padded.data.size ≤ addressLimit := by decide
  obtain ⟨hcopy, -, -, -, hbytes, hbrightness, hblack⟩ := workingCopy_agrees padded hmemory
  have hlast : padded.workingCopy.get? 2 1 = some 6 := (hbytes 2 (by decide) 1 (by decide)).2
  have hshown := hbrightness 2 1 (by decide)
  refine ⟨hmemory, hcopy, hlast, ?_, hblack _ _ (by decide), hblack _ _ (by decide)⟩
  exact Option.some_inj.1 (hshown.symm.trans hlast)

end Copying

end Picture

end VectorDisplay
