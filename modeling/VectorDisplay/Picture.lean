import VectorDisplay.Error
import VectorDisplay.Grid
set_option autoImplicit false

namespace VectorDisplay

structure Picture where
  data : ByteArray
  width : UInt32
  height : UInt32
  stride : Nat
  time : Option Nat
  width_pos : 0 < width.toNat
  height_pos : 0 < height.toNat
  width_le_stride : width.toNat ≤ stride
  covered : stride * (height.toNat - 1) + width.toNat ≤ data.size

namespace Picture

/-- The bytes that the pixels of a picture reach over. -/
def span (width height : UInt32) (stride : Nat) : Nat :=
  stride * (height.toNat - 1) + width.toNat

/-- The picture on the given bytes. The span is computed in 64 bits. -/
def ofStride (data : ByteArray) (width height : UInt32) (stride : Nat) :
    Checked (Except Error Picture) :=
  if hw : width.toNat = 0 then .ok (empty width height)
  else if hh : height.toNat = 0 then .ok (empty width height)
  else if hs : stride < width.toNat then
    .ok (.error (.of
      (.validation "stride" "stride must be at least the frame width" (toString stride))))
  else if span width height stride < wordLimit then
    if hd : data.size < span width height stride then
      .ok (.error (.of (.validation "frame_data"
        ("expected at least " ++ toString (span width height stride) ++ " bytes")
        (toString data.size))))
    else
      .ok (.ok {
        data := data
        width := width
        height := height
        stride := stride
        time := none
        width_pos := Nat.pos_of_ne_zero hw
        height_pos := Nat.pos_of_ne_zero hh
        width_le_stride := Nat.le_of_not_lt hs
        covered := Nat.le_of_not_lt hd })
  else .error .overflow
where
  empty (width height : UInt32) : Except Error Picture :=
    .error (.of (.validation "frame_size" "width and height must be non-zero"
      (toString width ++ "x" ++ toString height)))

def ofBytes (data : ByteArray) (width height : UInt32) : Checked (Except Error Picture) :=
  ofStride data width height width.toNat

def atTime (p : Picture) (time : Nat) : Picture := { p with time := some time }

theorem index_lt (p : Picture) {x y : Nat} (hx : x < p.width.toNat) (hy : y < p.height.toNat) :
    y * p.stride + x < p.data.size := by
  have := p.covered
  have : y * p.stride ≤ p.stride * (p.height.toNat - 1) := by
    rw [Nat.mul_comm]; exact Nat.mul_le_mul_left _ (by omega)
  omega

def pixel? (p : Picture) (x y : Nat) : Option UInt8 :=
  if h : x < p.width.toNat ∧ y < p.height.toNat then
    have := p.index_lt h.1 h.2
    some p.data[y * p.stride + x]
  else none

def brightness (p : Picture) (x y : Int32) : UInt8 :=
  if x < 0 ∨ y < 0 then 0 else (p.pixel? x.toNatClampNeg y.toNatClampNeg).getD 0

def row (p : Picture) (y : Nat) : Array UInt8 :=
  (p.data.extract (y * p.stride) (y * p.stride + p.width.toNat)).data

theorem size_row (p : Picture) {y : Nat} (hy : y < p.height.toNat) :
    (p.row y).size = p.width.toNat := by
  have := p.index_lt (x := p.width.toNat - 1) (y := y)
    (by have := p.width_pos; omega) hy
  have := p.width_pos
  have h : (p.row y).size = (p.data.extract (y * p.stride) (y * p.stride + p.width.toNat)).size :=
    rfl
  rw [h, ByteArray.size_extract]
  omega

def rows (p : Picture) : Nat → Array UInt8
  | 0 => #[]
  | n + 1 => p.rows n ++ p.row n

theorem size_rows (p : Picture) {n : Nat} (hn : n ≤ p.height.toNat) :
    (p.rows n).size = p.width.toNat * n := by
  induction n with
  | zero => rfl
  | succ n ih =>
    rw [rows, Array.size_append, ih (by omega), p.size_row (by omega), Nat.mul_succ]

/-- The visible pixels alone, for those who overwrite what they read. -/
def workingCopy (p : Picture) : Grid UInt8 where
  width := p.width.toNat
  height := p.height.toNat
  cells := p.rows p.height.toNat
  size_eq := p.size_rows (Nat.le_refl _)

end Picture

end VectorDisplay
