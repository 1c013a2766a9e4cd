import Mathlib.Algebra.Order.BigOperators.Group.List
import VectorDisplay.Proofs.Drawing.Filling
import VectorDisplay.Proofs.Grid
/-!
The shares of a sweep. A cell is granted its part of the free space, rounded down; since the parts add
up to the free space, nothing overruns it, and less than one sample a cell is left to the fill. Main
statement: a sweep grants exactly these shares, without a cut, in the arithmetic of its words.
-/

set_option autoImplicit false

namespace VectorDisplay

namespace Sweep

/-- What weights get of a capacity, each share rounded down. -/
def shares (weights : List ℕ) (capacity : ℕ) : List ℕ :=
  weights.map fun w => w * capacity / weights.sum

theorem sum_div_add_sum_mod (weights : List ℕ) (capacity total : ℕ) :
    total * (weights.map fun w => w * capacity / total).sum +
      (weights.map fun w => w * capacity % total).sum = weights.sum * capacity := by
  induction weights with
  | nil => simp
  | cons w rest ih =>
    have hw := Nat.div_add_mod (w * capacity) total
    simp only [List.map_cons, List.sum_cons, Nat.mul_add, Nat.add_mul]
    omega

variable {weights : List ℕ} (capacity : ℕ)

theorem sum_shares_le (hpos : 0 < weights.sum) : (shares weights capacity).sum ≤ capacity := by
  have hsplit := sum_div_add_sum_mod weights capacity weights.sum
  refine Nat.le_of_mul_le_mul_left ?_ hpos
  exact le_trans (Nat.le_add_right _ _) hsplit.le

theorem lt_sum_shares_add_length (hpos : 0 < weights.sum) :
    capacity < (shares weights capacity).sum + weights.length := by
  have hsplit := sum_div_add_sum_mod weights capacity weights.sum
  have hnonempty : weights ≠ [] := by
    rintro rfl
    exact absurd hpos (by simp)
  have hmod : (weights.map fun w => w * capacity % weights.sum).sum <
      (weights.map fun _ => weights.sum).sum :=
    List.sum_lt_sum_of_ne_nil hnonempty _ _ fun w _ => Nat.mod_lt _ hpos
  rw [List.map_const', List.sum_replicate_nat, Nat.mul_comm] at hmod
  refine Nat.lt_of_mul_lt_mul_left (a := weights.sum) ?_
  rw [Nat.mul_add]
  calc weights.sum * capacity
      = weights.sum * (shares weights capacity).sum +
          (weights.map fun w => w * capacity % weights.sum).sum := hsplit.symm
    _ < weights.sum * (shares weights capacity).sum + weights.sum * weights.length :=
        Nat.add_lt_add_left hmod _

end Sweep

namespace SweepStyle

open Sweep

variable (s : SweepStyle) (p : Picture)

theorem width_pos : 0 < s.width := Nat.lt_of_lt_of_le one_pos (Nat.le_max_right _ _)

theorem height_pos : 0 < s.height := Nat.lt_of_lt_of_le one_pos (Nat.le_max_right _ _)

theorem width_lt : s.width < 2 ^ 32 := by
  have := s.columns.toNat_lt
  unfold width
  omega

theorem height_lt : s.height < 2 ^ 32 := by
  have := s.rows.toNat_lt
  unfold height
  omega

section Cells

variable {s}

theorem cell_eq (row : ℕ) {i : ℕ} (hi : i < s.width) :
    s.cell p (row * s.width + i) =
      let column := if row % 2 = 1 then s.width - 1 - i else i
      ⟨column, row, s.brightness p column row⟩ := by
  obtain ⟨hcolumn, hrow⟩ := Grid.split_index (y := row) hi
  simp only [cell, hcolumn, hrow]

theorem column_cell_lt (k : ℕ) : (s.cell p k).column < s.width := by
  have hk := Nat.mod_lt k s.width_pos
  unfold cell
  dsimp only
  split <;> omega

theorem row_cell_lt {k : ℕ} (hk : k < s.size) : (s.cell p k).row < s.height :=
  Nat.div_lt_of_lt_mul hk

end Cells

def weights : List ℕ := (List.range s.size).map fun k => weight (s.cell p k).brightness

def gridWeight : ℕ :=
  ((List.range s.height).map fun row =>
    ((List.range s.width).map fun column => ((s.brightness p column row).toNat + 1) ^ 3).sum).sum

/-- The weight of a row does not depend on the direction of the beam. -/
theorem sum_row (row : ℕ) :
    ((List.range s.width).map fun i => weight (s.cell p (row * s.width + i)).brightness).sum =
      ((List.range s.width).map fun column =>
        ((s.brightness p column row).toNat + 1) ^ 3).sum := by
  have hcell (i : ℕ) (hi : i ∈ List.range s.width) :
      weight (s.cell p (row * s.width + i)).brightness =
        ((s.brightness p (if row % 2 = 1 then s.width - 1 - i else i) row).toNat + 1) ^ 3 := by
    rw [cell_eq p row (List.mem_range.1 hi), weight_eq]
  have hback : (List.range s.width).reverse = (List.range s.width).map (s.width - 1 - ·) := by
    rw [List.range_eq_range', List.reverse_range']
    simp [List.range_eq_range']
  rw [List.map_congr_left hcell]
  split
  · rw [← List.sum_reverse ((List.range s.width).map fun column =>
      ((s.brightness p column row).toNat + 1) ^ 3), ← List.map_reverse, hback, List.map_map]
    rfl
  · rfl

theorem sum_weights : (s.weights p).sum = s.gridWeight p := by
  have hrows (n : ℕ) :
      ((List.range (n * s.width)).map fun k => weight (s.cell p k).brightness).sum =
        ((List.range n).map fun row =>
          ((List.range s.width).map fun column =>
            ((s.brightness p column row).toNat + 1) ^ 3).sum).sum := by
    induction n with
    | zero => simp
    | succ n ih =>
      rw [Nat.succ_mul, List.range_add, List.map_append, List.sum_append, ih, List.map_map,
        List.range_succ, List.map_append, List.sum_append, List.map_singleton, List.sum_singleton,
        ← s.sum_row p n]
      rfl
  unfold weights size
  rw [Nat.mul_comm]
  exact hrows s.height

theorem total_eq_gridWeight : s.total p = s.gridWeight p :=
  (s.total_eq_sum p).trans (s.sum_weights p)

theorem gridWeight_pos : 0 < s.gridWeight p := by
  rw [← s.sum_weights p]
  refine List.sum_pos _ ?_ ?_
  · intro w hw
    obtain ⟨k, -, rfl⟩ := List.mem_map.1 hw
    rw [weight_eq]
    exact Nat.pow_pos (Nat.succ_pos _)
  · rw [← List.length_pos_iff, weights, List.length_map, List.length_range]
    exact Nat.mul_pos s.width_pos s.height_pos

/-- The samples due to the cell visited at step `k`, rounded down. -/
def due (capacity k : ℕ) : ℕ :=
  ((s.cell p k).brightness.toNat + 1) ^ 3 * capacity / s.gridWeight p

/-- The numbers on the way of a sweep fit their words, and no difference is taken below zero. -/
structure InWords (capacity : ℕ) : Prop where
  cells : ∀ k < s.size, (s.cell p k).column < s.width ∧ (s.cell p k).row < s.height
  sourceColumn : ∀ column < s.width, column * p.width.toNat < 2 ^ 64 ∧
    column * p.width.toNat / s.width < p.width.toNat
  sourceRow : ∀ row < s.height, row * p.height.toNat < 2 ^ 64 ∧
    row * p.height.toNat / s.height ≤ p.height.toNat - 1
  place : ∀ column < s.width, column * 2 * (deviceMax + 1) < 2 ^ 64 ∧
    column * 2 * (deviceMax + 1) / s.width < 2 ^ 16
  line : ∀ row < s.height, row * (deviceMax + 1) < 2 ^ 64
  size : s.size < 2 ^ 64
  sums : ∀ n ≤ s.size, ((s.weights p).take n).sum < 2 ^ 64
  products : ∀ w ∈ s.weights p, w * capacity < 2 ^ 128
  quotients : ∀ w ∈ s.weights p, w * capacity / s.gridWeight p < 2 ^ 64

theorem mul_div_lt {i n extent : ℕ} (hi : i < n) (hextent : 0 < extent) :
    i * extent / n < extent := by
  refine Nat.div_lt_of_lt_mul ?_
  exact Nat.mul_lt_mul_of_pos_right hi hextent

theorem mul_lt_word {a b : ℕ} (ha : a < 2 ^ 32) (hb : b < 2 ^ 32) : a * b < 2 ^ 64 := by
  calc a * b < 2 ^ 32 * 2 ^ 32 := Nat.mul_lt_mul'' ha hb
    _ = 2 ^ 64 := by decide

variable {s p}

theorem le_gridWeight {w : ℕ} (hw : w ∈ s.weights p) : w ≤ s.gridWeight p := by
  rw [← s.sum_weights p]
  exact List.le_sum_of_mem hw

theorem share_lt {capacity w : ℕ} (hw : w ∈ s.weights p) (hroom : capacity < 2 ^ 64) :
    w * capacity / s.gridWeight p < 2 ^ 64 := by
  refine lt_of_le_of_lt (Nat.div_le_of_le_mul ?_) hroom
  exact Nat.mul_le_mul_right _ (le_gridWeight hw)

theorem inWords {capacity : ℕ} (hsize : s.size * 2 ^ 24 < 2 ^ 64) (hroom : capacity < 2 ^ 64) :
    s.InWords p capacity where
  cells k hk := ⟨column_cell_lt p k, row_cell_lt p hk⟩
  sourceColumn _ hcolumn :=
    ⟨mul_lt_word (hcolumn.trans s.width_lt) p.width.toNat_lt, mul_div_lt hcolumn p.width_pos⟩
  sourceRow _ hrow :=
    ⟨mul_lt_word (hrow.trans s.height_lt) p.height.toNat_lt,
      Nat.le_sub_one_of_lt (mul_div_lt hrow p.height_pos)⟩
  place column hcolumn := by
    have hlt := s.width_lt
    have hfine : column * 2 * (deviceMax + 1) / s.width < 2 * (deviceMax + 1) := by
      rw [Nat.mul_assoc]
      exact mul_div_lt hcolumn (by decide)
    simp only [deviceMax] at hfine ⊢
    omega
  line _ hrow := mul_lt_word (hrow.trans s.height_lt) (by decide)
  size := by omega
  sums n _ := by
    have htotal := s.total_le p
    rw [total_eq_gridWeight, ← sum_weights] at htotal
    exact lt_of_le_of_lt ((List.take_sublist n _).sum_le_sum fun _ _ => Nat.zero_le _) (by omega)
  products w hw := by
    obtain ⟨k, -, rfl⟩ := List.mem_map.1 hw
    have hweight := weight_le (s.cell p k).brightness
    calc weight (s.cell p k).brightness * capacity ≤ 2 ^ 24 * 2 ^ 64 :=
          Nat.mul_le_mul hweight hroom.le
      _ < 2 ^ 128 := by decide
  quotients w hw := share_lt hw hroom

theorem batch_eq {capacity k : ℕ} (hk : k < s.size) (hroom : capacity < 2 ^ 64) :
    s.batch p (s.total p) capacity k = ⟨s.due p capacity k, .on, s.variants (s.cell p k)⟩ := by
  have hpos := s.gridWeight_pos p
  have hw : weight (s.cell p k).brightness ∈ s.weights p :=
    List.mem_map.2 ⟨k, List.mem_range.2 hk, rfl⟩
  have hshare : share (weight (s.cell p k).brightness) capacity (s.total p) =
      s.due p capacity k := by
    rw [share, total_eq_gridWeight, if_neg hpos.ne',
      Nat.mod_eq_of_lt (show _ < wordLimit from share_lt hw hroom), due, weight_eq]
  rw [batch, hshare]

def rests (s : SweepStyle) (p : Picture) (capacity : ℕ) : List Batch :=
  (List.range s.size).map fun k => ⟨s.due p capacity k, .on, s.variants (s.cell p k)⟩

theorem total_rests (capacity : ℕ) :
    Batch.total (s.rests p capacity) = (shares (s.weights p) capacity).sum := by
  simp only [Batch.total, rests, shares, s.sum_weights p]
  rw [weights, List.map_map, List.map_map]
  simp only [Function.comp_def, due, weight_eq]

/-- A sweep grants every cell its share of the free space rounded down, which never overruns the
space and leaves less than one sample a cell. -/
theorem exact_shares (s : SweepStyle) (p : Picture) (before : Buffer)
    (hsize : max s.columns.toNat 1 * max s.rows.toNat 1 * 2 ^ 24 < 2 ^ 64)
    (hroom : before.remaining < 2 ^ 64) :
    s.InWords p before.remaining ∧
    ∃ swept, s.draw p before = .ok swept ∧ swept.report.cut = none ∧
      swept.report.path before swept.buffer =
        Batch.stream (s.rests p before.remaining) before.size ∧
      swept.report.pathSamples ≤ before.remaining ∧
      swept.report.fillSamples < s.size ∧
      ∀ j k, (s.cell p j).brightness ≤ (s.cell p k).brightness →
        s.due p before.remaining j ≤ s.due p before.remaining k := by
  obtain ⟨swept, h⟩ := exists_draw_eq_ok (p := p) hsize before
  obtain ⟨drawn, cut, hdraw, -, -, hafter, hreport⟩ := draw_eq_ok h
  have hlaid := laid_drawFrom (Nat.le_refl _) hdraw
  have hrests : (List.range' (s.size - s.size) s.size).map (s.batch p (s.total p) before.remaining) =
      s.rests p before.remaining := by
    rw [Nat.sub_self, ← List.range_eq_range']
    exact List.map_congr_left fun k hk => batch_eq (List.mem_range.1 hk) hroom
  rw [hrests] at hlaid
  have hpos : 0 < (s.weights p).sum := s.sum_weights p ▸ s.gridWeight_pos p
  have hfits : Batch.total (s.rests p before.remaining) ≤ before.remaining := by
    rw [total_rests]
    exact sum_shares_le _ hpos
  have hleft : before.remaining < Batch.total (s.rests p before.remaining) + s.size := by
    rw [total_rests]
    simpa [weights] using lt_sum_shares_add_length before.remaining hpos
  have hlist : drawn.toList =
      before.toList ++ Batch.stream (s.rests p before.remaining) before.size := by
    rw [hlaid.toList_eq, List.take_of_length_le (by simpa using hfits)]
  have hcount : swept.report.pathSamples =
      (Batch.stream (s.rests p before.remaining) before.size).length := by
    rw [hreport, ← Buffer.length_toList drawn, hlist, List.length_append, Buffer.length_toList,
      Nat.add_sub_cancel_left]
  refine ⟨inWords hsize hroom, swept, h, ?_, ?_, ?_, ?_, ?_⟩
  · rw [hreport]
    exact hlaid.cut_eq_none_iff.2 hfits
  · have hfilled : swept.buffer.toList = before.toList ++
        (Batch.stream (s.rests p before.remaining) before.size ++
          List.replicate swept.report.fillSamples (.ofPlace s.park .off)) := by
      rw [hafter, Buffer.toList_fill, hlist, hreport, List.append_assoc]
    exact Filled.path_eq hfilled hcount
  · rw [hcount, Batch.length_stream]
    exact hfits
  · rw [hreport]
    dsimp only
    rw [hlaid.remaining_eq]
    omega
  · intro j k hle
    have hle' : (s.cell p j).brightness.toNat ≤ (s.cell p k).brightness.toNat := hle
    exact Nat.div_le_div_right (Nat.mul_le_mul_right _ (Nat.pow_le_pow_left (by omega) 3))

theorem exact_shares_pixel :
    ∃ swept, ({ columns := 3, rows := 2 } : SweepStyle).draw (.ofPixel 64)
        (.holding #[⟨9, 9, 9⟩] 1000) = .ok swept ∧
      swept.report.cut = none ∧
      ({ columns := 3, rows := 2 } : SweepStyle).due (.ofPixel 64) 1000 1 = 4 ∧
      swept.report.path (.holding #[⟨9, 9, 9⟩] 1000) swept.buffer = Batch.stream
        (({ columns := 3, rows := 2 } : SweepStyle).rests (.ofPixel 64) 1000) 1 ∧
      swept.report.pathSamples ≤ 1000 ∧ swept.report.fillSamples < 6 := by
  obtain ⟨-, swept, h, hcut, hpath, hcount, hfill, -⟩ := exact_shares { columns := 3, rows := 2 }
    (.ofPixel 64) (.holding #[⟨9, 9, 9⟩] 1000) (by decide) (by decide)
  exact ⟨swept, h, hcut, by decide, hpath, hcount, hfill⟩

end SweepStyle

end VectorDisplay
