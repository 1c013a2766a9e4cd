import Mathlib.Tactic.Ring
import VectorDisplay.Proofs.Picture.Layout
import VectorDisplay.Proofs.Projection
import VectorDisplay.Proofs.Sweep.Serpentine
set_option autoImplicit false

namespace VectorDisplay

namespace SweepStyle

open Sweep

def sourceColumn (s : SweepStyle) (width column : ℕ) : ℕ := column * width / s.width

def sourceRow (s : SweepStyle) (height row : ℕ) : ℕ := height - 1 - row * height / s.height

/-- The pixel that a cell looks at. -/
def source (s : SweepStyle) (width height : UInt32) (c : Cell) : Point :=
  .ofNat (s.sourceColumn width.toNat c.column) (s.sourceRow height.toNat c.row)

variable {s : SweepStyle} {p : Picture}

section Looking

theorem brightness_edge {column : ℕ} (row : ℕ) (h : column = 0 ∨ column = s.width - 1) :
    s.brightness p column row = edgeBrightness := if_pos h

theorem sourceColumn_lt {width column : ℕ} (hwidth : 0 < width) (hcolumn : column < s.width) :
    s.sourceColumn width column < width := mul_div_lt hcolumn hwidth

theorem sourceRow_lt {height : ℕ} (hheight : 0 < height) (row : ℕ) :
    s.sourceRow height row < height := by
  have hle : s.sourceRow height row ≤ height - 1 := Nat.sub_le _ _
  omega

theorem pixel?_source {column row : ℕ} (hwidth : p.width.toNat < 2 ^ 31)
    (hheight : p.height.toNat < 2 ^ 31) (hcolumn : column < s.width)
    (hinner : ¬ (column = 0 ∨ column = s.width - 1)) :
    p.pixel? (s.sourceColumn p.width.toNat column) (s.sourceRow p.height.toNat row) =
      some (s.brightness p column row) := by
  have hx : s.sourceColumn p.width.toNat column < p.width.toNat := sourceColumn_lt p.width_pos hcolumn
  have hy : s.sourceRow p.height.toNat row < p.height.toNat := sourceRow_lt p.height_pos row
  obtain ⟨v, hv⟩ := Option.isSome_iff_exists.1 (Picture.pixel?_isSome_iff.2 ⟨hx, hy⟩)
  have hbrightness : s.brightness p column row =
      p.brightness (.ofNat (s.sourceColumn p.width.toNat column))
        (.ofNat (s.sourceRow p.height.toNat row)) := if_neg hinner
  rw [hbrightness, p.brightness_ofNat (hx.trans hwidth) (hy.trans hheight), hv, Option.getD_some]

theorem sourceColumn_mono (width : ℕ) : Monotone (s.sourceColumn width) :=
  fun _ _ hle => Nat.div_le_div_right (Nat.mul_le_mul_right _ hle)

theorem sourceRow_anti (height : ℕ) : Antitone (s.sourceRow height) :=
  fun _ _ hle => Nat.sub_le_sub_left (Nat.div_le_div_right (Nat.mul_le_mul_right _ hle)) _

theorem sourceRow_zero (height : ℕ) : s.sourceRow height 0 = height - 1 := by
  rw [sourceRow, Nat.zero_mul, Nat.zero_div, Nat.sub_zero]

theorem exists_mul_div_eq {n extent i : ℕ} (hle : extent ≤ n) (hi : i < extent) :
    ∃ j < n, j * extent / n = i := by
  have hextent : 0 < extent := Nat.zero_lt_of_lt hi
  have hlow : i * n ≤ (i * n + extent - 1) / extent * extent := by
    have := Nat.div_add_mod' (i * n + extent - 1) extent
    have := Nat.mod_lt (i * n + extent - 1) hextent
    omega
  have hhigh : (i * n + extent - 1) / extent * extent < (i + 1) * n := by
    have := Nat.div_mul_le_self (i * n + extent - 1) extent
    rw [Nat.succ_mul]
    omega
  refine ⟨(i * n + extent - 1) / extent, ?_, ?_⟩
  · refine Nat.lt_of_mul_lt_mul_right (a := extent) (hhigh.trans_le ?_)
    rw [Nat.mul_comm n]
    exact Nat.mul_le_mul_right n hi
  · exact Nat.div_eq_of_lt_le hlow hhigh

theorem exists_sourceRow {height y : ℕ} (hle : height ≤ s.height) (hy : y < height) :
    ∃ row < s.height, s.sourceRow height row = y := by
  obtain ⟨row, hrow, heq⟩ := exists_mul_div_eq hle (show height - 1 - y < height by omega)
  refine ⟨row, hrow, ?_⟩
  rw [sourceRow, heq]
  omega

theorem sourceRow_self (row : ℕ) : s.sourceRow s.height row = s.height - 1 - row := by
  rw [sourceRow, Nat.mul_div_cancel _ s.height_pos]

/-- The numbers on the way to the cells fit their words, no difference is taken below zero, and what is
looked at keeps its place as a signed word. -/
structure LooksInWords (s : SweepStyle) (p : Picture) : Prop where
  back : 1 ≤ s.width ∧ ∀ i < s.width, i ≤ s.width - 1
  columns : ∀ column < s.width, column * p.width.toNat < 2 ^ 64 ∧
    (Int32.ofNat (s.sourceColumn p.width.toNat column)).toInt = s.sourceColumn p.width.toNat column
  rows : 1 ≤ p.height.toNat ∧ ∀ row < s.height, row * p.height.toNat < 2 ^ 64 ∧
    row * p.height.toNat / s.height ≤ p.height.toNat - 1 ∧
    (Int32.ofNat (s.sourceRow p.height.toNat row)).toInt = s.sourceRow p.height.toNat row

theorem looksInWords (hwidth : p.width.toNat < 2 ^ 31) (hheight : p.height.toNat < 2 ^ 31) :
    s.LooksInWords p where
  back := ⟨s.width_pos, fun _ hi => Nat.le_sub_one_of_lt hi⟩
  columns _ hcolumn :=
    ⟨mul_lt_word (hcolumn.trans s.width_lt) p.width.toNat_lt,
      Int32.toInt_ofNat_of_lt ((sourceColumn_lt p.width_pos hcolumn).trans hwidth)⟩
  rows := ⟨p.height_pos, fun row hrow =>
    ⟨mul_lt_word (hrow.trans s.height_lt) p.height.toNat_lt,
      Nat.le_sub_one_of_lt (mul_div_lt hrow p.height_pos),
      Int32.toInt_ofNat_of_lt ((sourceRow_lt p.height_pos row).trans hheight)⟩⟩

end Looking

/-- The inner cells of a sweep show pixels of the picture, row by row from its bottom to its top, and the
first and the last column are bright. A grid that is at least as high as the picture leaves out no row,
and one that is as high looks at each of them once. -/
theorem cells_show_picture (s : SweepStyle) (p : Picture) (hwidth : p.width.toNat < 2 ^ 31)
    (hheight : p.height.toNat < 2 ^ 31) :
    s.LooksInWords p ∧
    (∀ c ∈ s.cells p, ¬ (c.column = 0 ∨ c.column = s.width - 1) →
      s.sourceColumn p.width.toNat c.column < p.width.toNat ∧
      s.sourceRow p.height.toNat c.row < p.height.toNat ∧
      p.pixel? (s.sourceColumn p.width.toNat c.column) (s.sourceRow p.height.toNat c.row) =
        some c.brightness) ∧
    (∀ c ∈ s.cells p, c.column = 0 ∨ c.column = s.width - 1 → c.brightness = 0xf0) ∧
    s.sourceRow p.height.toNat 0 = p.height.toNat - 1 ∧
    Antitone (s.sourceRow p.height.toNat) ∧ Monotone (s.sourceColumn p.width.toNat) ∧
    (p.height.toNat ≤ s.height →
      ∀ y < p.height.toNat, ∃ row < s.height, s.sourceRow p.height.toNat row = y) ∧
    (p.height.toNat = s.height →
      ∀ y < p.height.toNat, ∃! row, row < s.height ∧ s.sourceRow p.height.toNat row = y) := by
  refine ⟨looksInWords hwidth hheight, ?inner, ?edge, sourceRow_zero _, sourceRow_anti _,
    sourceColumn_mono _, fun hle y hy => exists_sourceRow hle hy, ?once⟩
  case inner =>
    intro c hc hinner
    obtain ⟨k, hk, rfl⟩ := List.mem_map.1 hc
    have hpixel : p.pixel? (s.sourceColumn p.width.toNat (s.cell p k).column)
        (s.sourceRow p.height.toNat (s.cell p k).row) = some (s.cell p k).brightness :=
      pixel?_source hwidth hheight (column_cell_lt p k) hinner
    obtain ⟨hx, hy⟩ := Picture.pixel?_isSome_iff.1 (Option.isSome_of_eq_some hpixel)
    exact ⟨hx, hy, hpixel⟩
  case edge =>
    intro c hc hedge
    obtain ⟨k, -, rfl⟩ := List.mem_map.1 hc
    exact brightness_edge (s.cell p k).row hedge
  case once =>
    intro hsame y hy
    obtain ⟨row, hrow, heq⟩ := exists_sourceRow hsame.le hy
    refine ⟨row, ⟨hrow, heq⟩, fun other hother => ?_⟩
    rw [hsame, sourceRow_self] at heq hother
    omega

theorem cells_show_picture_upward :
    Picture.padded.width.toNat < 2 ^ 31 ∧ Picture.padded.height.toNat < 2 ^ 31 ∧
      (({ columns := 3, rows := 2 } : SweepStyle).cells .padded).map Cell.brightness =
        [0xf0, 5, 0xf0, 0xf0, 2, 0xf0] ∧
      ∀ y < 2, ∃! row, row < 2 ∧ ({ columns := 3, rows := 2 } : SweepStyle).sourceRow 2 row = y := by
  refine ⟨by decide, by decide, by decide, ?_⟩
  obtain ⟨-, -, -, -, -, -, -, honce⟩ :=
    cells_show_picture { columns := 3, rows := 2 } .padded (by decide) (by decide)
  exact honce rfl

section Placing

variable {n extent i : ℕ} (m : ℕ)

/-- A place on an axis of `n` that is brought to one of `extent` and on to `m` does not pass the place
that is brought to `m + 1` at once. It falls short of it by less than one step of the middle axis and two
of the last. -/
theorem mul_div_twice_near (hi : i < n) (hextent : 0 < extent) :
    i * extent / n * m / extent ≤ i * (m + 1) / n ∧
      extent * (i * (m + 1) / n - i * extent / n * m / extent) < m + 2 * extent := by
  have hn : 0 < n := Nat.zero_lt_of_lt hi
  have hlow : i * extent / n * n ≤ i * extent := Nat.div_mul_le_self _ _
  have hhigh : i * extent < n * (i * extent / n + 1) := Nat.lt_mul_div_succ _ hn
  generalize i * extent / n = q at hlow hhigh
  have halow : q * m / extent * extent ≤ q * m := Nat.div_mul_le_self _ _
  have hahigh : q * m < extent * (q * m / extent + 1) := Nat.lt_mul_div_succ _ hextent
  generalize q * m / extent = a at halow hahigh
  have hle : a ≤ i * (m + 1) / n := by
    rw [Nat.le_div_iff_mul_le hn]
    refine Nat.le_of_mul_le_mul_right ?_ hextent
    calc a * n * extent = a * extent * n := by ring
      _ ≤ q * m * n := Nat.mul_le_mul_right n halow
      _ = q * n * m := by ring
      _ ≤ i * extent * m := Nat.mul_le_mul_right m hlow
      _ ≤ i * extent * (m + 1) := Nat.mul_le_mul_left _ (Nat.le_succ m)
      _ = i * (m + 1) * extent := by ring
  refine ⟨hle, ?_⟩
  have hblow : i * (m + 1) / n * n ≤ i * (m + 1) := Nat.div_mul_le_self _ _
  generalize i * (m + 1) / n = b at hle hblow
  have hshort : extent * b < extent * (a + 1) + m + extent := by
    refine Nat.lt_of_mul_lt_mul_right (a := n) ?_
    calc extent * b * n = extent * (b * n) := by ring
      _ ≤ extent * (i * (m + 1)) := Nat.mul_le_mul_left _ hblow
      _ = m * (i * extent) + i * extent := by ring
      _ < m * (n * (q + 1)) + n * extent :=
          Nat.add_lt_add_of_le_of_lt (Nat.mul_le_mul_left m hhigh.le)
            (Nat.mul_lt_mul_of_pos_right hi hextent)
      _ = (q * m + m + extent) * n := by ring
      _ ≤ (extent * (a + 1) + m + extent) * n :=
          Nat.mul_le_mul_right n (by omega)
  rw [Nat.mul_sub]
  rw [Nat.mul_succ] at hshort
  omega

theorem sub_mul_div_twice_near (hi : i < n) (hextent : 0 < extent) :
    i * (m + 1) / n ≤ m - (extent - 1 - i * extent / n) * m / extent ∧
      extent * (m - (extent - 1 - i * extent / n) * m / extent - i * (m + 1) / n) <
        m + 2 * extent := by
  have hn : 0 < n := Nat.zero_lt_of_lt hi
  have hlow : i * extent / n * n ≤ i * extent := Nat.div_mul_le_self _ _
  have hhigh : i * extent < n * (i * extent / n + 1) := Nat.lt_mul_div_succ _ hn
  have hback : extent - 1 - i * extent / n + (i * extent / n + 1) = extent := by
    have := mul_div_lt hi hextent
    omega
  generalize i * extent / n = q at hlow hhigh hback
  generalize extent - 1 - q = r at hback
  have halow : r * m / extent * extent ≤ r * m := Nat.div_mul_le_self _ _
  have hahigh : r * m < extent * (r * m / extent + 1) := Nat.lt_mul_div_succ _ hextent
  generalize r * m / extent = a at halow hahigh
  have hblow : i * (m + 1) / n * n ≤ i * (m + 1) := Nat.div_mul_le_self _ _
  have hbhigh : i * (m + 1) < n * (i * (m + 1) / n + 1) := Nat.lt_mul_div_succ _ hn
  generalize i * (m + 1) / n = b at hblow hbhigh
  have hsum : a + b < m + 1 := by
    refine Nat.lt_of_mul_lt_mul_right (a := extent * n) ?_
    calc (a + b) * (extent * n) = a * extent * n + b * n * extent := by ring
      _ ≤ r * m * n + i * (m + 1) * extent :=
          Nat.add_le_add (Nat.mul_le_mul_right n halow) (Nat.mul_le_mul_right extent hblow)
      _ = r * m * n + m * (i * extent) + i * extent := by ring
      _ < r * m * n + m * (n * (q + 1)) + n * extent :=
          Nat.add_lt_add_of_le_of_lt
            (Nat.add_le_add_left (Nat.mul_le_mul_left m hhigh.le) _)
            (Nat.mul_lt_mul_of_pos_right hi hextent)
      _ = m * n * (r + (q + 1)) + n * extent := by ring
      _ = (m + 1) * (extent * n) := by rw [hback]; ring
  have hshort : extent * m < extent * (a + 1) + extent * (b + 1) + m := by
    refine Nat.lt_of_mul_lt_mul_right (a := n) ?_
    calc extent * m * n = r * m * n + m * (q * n) + m * n := by
          nth_rewrite 1 [← hback]
          ring
      _ < extent * (a + 1) * n + extent * (n * (b + 1)) + m * n := by
          refine Nat.add_lt_add_right (Nat.add_lt_add_of_lt_of_le
            (Nat.mul_lt_mul_of_pos_right hahigh hn) ?_) _
          calc m * (q * n) ≤ m * (i * extent) := Nat.mul_le_mul_left m hlow
            _ ≤ (m + 1) * (i * extent) := Nat.mul_le_mul_right _ (Nat.le_succ m)
            _ = extent * (i * (m + 1)) := by ring
            _ ≤ extent * (n * (b + 1)) := Nat.mul_le_mul_left extent hbhigh.le
      _ = (extent * (a + 1) + extent * (b + 1) + m) * n := by ring
  refine ⟨by omega, ?_⟩
  rw [Nat.mul_sub, Nat.mul_sub]
  rw [Nat.mul_succ, Nat.mul_succ] at hshort
  omega

theorem mul_div_le_deviceMax (hi : i < n) : i * (deviceMax + 1) / n ≤ deviceMax :=
  Nat.le_of_lt_succ (mul_div_lt hi (Nat.succ_pos _))

theorem toNat_even {c : Cell} (hcolumn : c.column < s.width) (hrow : c.row < s.height) :
    (s.variants c).even.1.toNat = c.column * (deviceMax + 1) / s.width ∧
      (s.variants c).even.2.toNat = c.row * (deviceMax + 1) / s.height := by
  have hfine : c.column * 2 * (deviceMax + 1) / s.width / 2 =
      c.column * (deviceMax + 1) / s.width := by
    rw [Nat.div_div_eq_div_mul, Nat.mul_right_comm, Nat.mul_div_mul_right _ _ (by decide)]
  constructor
  · simp only [variants, fold_even, hfine]
    rw [Nat.min_eq_left (mul_div_le_deviceMax hcolumn), toNat_ofNat_of_le (mul_div_le_deviceMax hcolumn)]
  · simp only [variants]
    rw [Nat.min_eq_left (mul_div_le_deviceMax hrow), toNat_ofNat_of_le (mul_div_le_deviceMax hrow)]

theorem toNat_pick {c : Cell} (hrow : c.row < s.height) (i : ℕ) :
    ((s.variants c).pick i).1.toNat = fold (2 * (deviceMax + 1) * c.column / s.width)
        (decide (i % 2 = 1) && decide (c.column + 1 ≠ s.width)) ∧
      ((s.variants c).pick i).2.toNat = (deviceMax + 1) * c.row / s.height := by
  have hfine : c.column * 2 * (deviceMax + 1) = 2 * (deviceMax + 1) * c.column := by
    rw [Nat.mul_assoc, Nat.mul_comm]
  have hline : c.row * (deviceMax + 1) / s.height ≤ deviceMax := mul_div_le_deviceMax hrow
  constructor
  · rw [← toNat_ofNat_of_le (fold_le _ _), ← hfine]
    rcases Nat.mod_two_eq_zero_or_one i with hi | hi <;> simp [variants, Variants.pick, hi]
  · rw [Nat.mul_comm (deviceMax + 1), ← toNat_ofNat_of_le hline, ← Nat.min_eq_left hline]
    unfold Variants.pick variants
    split <;> rfl

theorem scaleAxis_ofNat {x : ℕ} {extent : UInt32} (hextent : extent.toNat < 2 ^ 31)
    (hx : x < extent.toNat) (range : ℕ) :
    scaleAxis (.ofNat x) extent range = x * range / extent.toNat := by
  have hpos : max extent.toNat 1 = extent.toNat := Nat.max_eq_left (Nat.zero_lt_of_lt hx)
  unfold scaleAxis
  dsimp only
  rw [Int32.toNatClampNeg_ofNat_of_lt (hx.trans hextent), hpos, Nat.min_eq_left hx.le]

theorem toNat_place {width height : UInt32} (hwidth : 0 < width.toNat)
    (hwidth' : width.toNat < 2 ^ 31) (hheight : 0 < height.toNat) (hheight' : height.toNat < 2 ^ 31)
    {c : Cell} (hcolumn : c.column < s.width) (odd : Bool) :
    (Projection.place ⟨width, height, false⟩ (s.source width height c) odd).1.toNat =
        s.sourceColumn width.toNat c.column * deviceMax / width.toNat ∧
      (Projection.place ⟨width, height, false⟩ (s.source width height c) odd).2.toNat =
        deviceMax - s.sourceRow height.toNat c.row * deviceMax / height.toNat := by
  have hx := scaleAxis_ofNat hwidth' (sourceColumn_lt hwidth hcolumn) deviceMax
  have hy := scaleAxis_ofNat hheight' (sourceRow_lt (s := s) hheight c.row) deviceMax
  rw [← hx, ← hy]
  exact Projection.toNat_place_of_plain Bool.false_ne_true _ odd

end Placing

/-- A sweep puts the pixel that a cell looks at no further left and no further up than a contour through
that pixel goes, and less than a pixel and two steps of the device away. -/
theorem near_projection (s : SweepStyle) (width height : UInt32) (hwidth : 0 < width.toNat)
    (hwidth' : width.toNat < 2 ^ 31) (hheight : 0 < height.toNat) (hheight' : height.toNat < 2 ^ 31)
    (c : Cell) (hcolumn : c.column < s.width) (hrow : c.row < s.height) (odd : Bool) :
    let swept := (s.variants c).even
    let traced := Projection.place ⟨width, height, false⟩ (s.source width height c) odd
    traced.1 ≤ swept.1 ∧
      width.toNat * (swept.1.toNat - traced.1.toNat) < 255 + 2 * width.toNat ∧
      swept.2 ≤ traced.2 ∧
      height.toNat * (traced.2.toNat - swept.2.toNat) < 255 + 2 * height.toNat := by
  intro swept traced
  obtain ⟨hsweptColumn, hsweptRow⟩ := toNat_even hcolumn hrow
  obtain ⟨htracedColumn, htracedRow⟩ := toNat_place hwidth hwidth' hheight hheight' hcolumn odd
  obtain ⟨hright, hacross⟩ := mul_div_twice_near deviceMax hcolumn hwidth
  obtain ⟨hup, hupward⟩ := sub_mul_div_twice_near deviceMax hrow hheight
  rw [UInt8.le_iff_toNat_le, UInt8.le_iff_toNat_le, hsweptColumn, hsweptRow, htracedColumn,
    htracedRow]
  exact ⟨hright, hacross, hup, hupward⟩

theorem near_projection_middle :
    (({ columns := 5, rows := 4 } : SweepStyle).variants ⟨3, 2, 50⟩).even = (153, 128) ∧
      Projection.place ⟨3, 3, false⟩ (({ columns := 5, rows := 4 } : SweepStyle).source 3 3 ⟨3, 2, 50⟩)
        false = (85, 170) ∧
      3 * (153 - 85) < 255 + 2 * 3 ∧ 3 * (170 - 128) < 255 + 2 * 3 := by
  obtain ⟨-, hacross, -, hupward⟩ := near_projection { columns := 5, rows := 4 } 3 3 (by decide)
    (by decide) (by decide) (by decide) ⟨3, 2, 50⟩ (by decide) (by decide) false
  exact ⟨by decide, by decide, hacross, hupward⟩

end SweepStyle

end VectorDisplay
