import Mathlib.Data.List.Nodup
import Mathlib.Data.List.Range
import Mathlib.Data.Nat.Dist
import VectorDisplay.Proofs.Sweep.Sharing
set_option autoImplicit false

namespace VectorDisplay

namespace Sweep

def Cell.position (c : Cell) : ℕ × ℕ := (c.row, c.column)

/-- One step apart: in the column of one row, or in the row of one column. -/
def Cell.Beside (a b : Cell) : Prop :=
  (a.row = b.row ∧ Nat.dist a.column b.column = 1) ∨ (Nat.dist a.row b.row = 1 ∧ a.column = b.column)

/-- A tour of a grid, step by step and row after row, that visits every cell once. -/
structure Serpentine (width height : ℕ) (cells : List Cell) : Prop where
  length_eq : cells.length = width * height
  nodup : (cells.map Cell.position).Nodup
  mem_iff : ∀ row column, (row, column) ∈ cells.map Cell.position ↔ row < height ∧ column < width
  start : (cells.map Cell.position).head? = some (0, 0)
  steps : cells.IsChain Cell.Beside
  rows : cells.Pairwise fun a b => a.row ≤ b.row

end Sweep

namespace SweepStyle

open Sweep

/-- The cells in the order in which they are visited. -/
def cells (s : SweepStyle) (p : Picture) : List Cell := (List.range s.size).map (s.cell p)

def rest (s : SweepStyle) (total capacity : ℕ) (c : Cell) : Batch :=
  ⟨share (weight c.brightness) capacity total, .on, s.variants c⟩

variable (s : SweepStyle) (p : Picture)

section Along

theorem total_eq_sum_cells : s.total p = ((s.cells p).map fun c => weight c.brightness).sum := by
  rw [total_eq_sum, cells, List.map_map]
  rfl

variable {s p}

theorem laid_cells {total capacity : ℕ} {buffer after : Buffer} {cut : Option Cut}
    (h : s.drawFrom p total capacity s.size buffer = (after, cut)) :
    Batch.Laid ((s.cells p).map (s.rest total capacity)) buffer after cut := by
  have hlaid := laid_drawFrom (Nat.le_refl _) h
  rw [Nat.sub_self, ← List.range_eq_range'] at hlaid
  rw [cells, List.map_map]
  exact hlaid

theorem path_eq_take {before : Buffer} {swept : Swept} (h : s.draw p before = .ok swept) :
    swept.report.path before swept.buffer =
      (Batch.stream ((s.cells p).map (s.rest (s.total p) before.remaining)) before.size).take
        before.remaining := by
  obtain ⟨drawn, cut, hdraw, -, -, hafter, hreport⟩ := draw_eq_ok h
  have hdrawn := (laid_cells hdraw).toList_eq
  generalize (Batch.stream ((s.cells p).map (s.rest (s.total p) before.remaining)) before.size).take
    before.remaining = path at hdrawn ⊢
  have hlist : swept.buffer.toList = before.toList ++
      (path ++ List.replicate swept.report.fillSamples (.ofPlace s.park .off)) := by
    rw [hafter, Buffer.toList_fill, hdrawn, hreport, List.append_assoc]
  refine Filled.path_eq hlist ?_
  rw [hreport, ← Buffer.length_toList drawn, hdrawn, List.length_append, Buffer.length_toList,
    Nat.add_sub_cancel_left]

end Along

section Places

theorem exists_place (k : ℕ) : ∃ row i, i < s.width ∧ k = row * s.width + i :=
  ⟨k / s.width, k % s.width, Nat.mod_lt k s.width_pos, (Nat.div_add_mod' k s.width).symm⟩

theorem position_cell (row : ℕ) {i : ℕ} (hi : i < s.width) :
    (s.cell p (row * s.width + i)).position =
      (row, if row % 2 = 1 then s.width - 1 - i else i) := by
  rw [cell_eq p row hi]
  rfl

theorem beside_cell (k : ℕ) : (s.cell p k).Beside (s.cell p (k + 1)) := by
  obtain ⟨row, i, hi, rfl⟩ := s.exists_place k
  by_cases hnext : i + 1 < s.width
  · left
    rw [Nat.add_assoc, cell_eq p row hi, cell_eq p row hnext]
    refine ⟨rfl, ?_⟩
    dsimp only
    unfold Nat.dist
    split <;> omega
  · right
    have hwrap : row * s.width + i + 1 = (row + 1) * s.width + 0 := by
      rw [Nat.succ_mul]
      omega
    rw [hwrap, cell_eq p row hi, cell_eq p (row + 1) s.width_pos]
    dsimp only
    refine ⟨?_, ?_⟩
    · unfold Nat.dist
      omega
    · split <;> split <;> omega

theorem position_injective {k l : ℕ} (h : (s.cell p k).position = (s.cell p l).position) :
    k = l := by
  obtain ⟨row, i, hi, rfl⟩ := s.exists_place k
  obtain ⟨row', j, hj, rfl⟩ := s.exists_place l
  rw [position_cell s p row hi, position_cell s p row' hj, Prod.mk.injEq] at h
  obtain ⟨rfl, hcolumn⟩ := h
  have hplace : i = j := by
    split at hcolumn <;> omega
  rw [hplace]

variable {s} in
theorem place_lt {row i : ℕ} (hrow : row < s.height) (hi : i < s.width) :
    row * s.width + i < s.size := by
  have hend : row * s.width + s.width ≤ s.height * s.width := by
    rw [← Nat.succ_mul]
    exact Nat.mul_le_mul_right _ hrow
  rw [size, Nat.mul_comm s.width]
  omega

theorem exists_cell {row column : ℕ} (hrow : row < s.height) (hcolumn : column < s.width) :
    ∃ k < s.size, (s.cell p k).position = (row, column) := by
  by_cases hodd : row % 2 = 1
  · have hi : s.width - 1 - column < s.width := by omega
    refine ⟨_, place_lt hrow hi, ?_⟩
    rw [position_cell s p row hi, if_pos hodd, Nat.sub_sub_self (by omega)]
  · exact ⟨_, place_lt hrow hcolumn, by rw [position_cell s p row hcolumn, if_neg hodd]⟩

end Places

/-- The beam visits the cells of the grid on a serpentine tour. Budget and drawing go along it: the total
is the weight of its cells, and what is laid is a batch for each of them, up to the first that does not
fit. -/
theorem cells_serpentine (s : SweepStyle) (p : Picture) :
    Serpentine (max s.columns.toNat 1) (max s.rows.toNat 1) (s.cells p) ∧
      s.total p = ((s.cells p).map fun c => weight c.brightness).sum ∧
      ∀ (total capacity : ℕ) (buffer : Buffer),
        Batch.Laid ((s.cells p).map (s.rest total capacity)) buffer
          (s.drawFrom p total capacity s.size buffer).1
          (s.drawFrom p total capacity s.size buffer).2 := by
  refine ⟨?_, s.total_eq_sum_cells p, fun total capacity buffer => laid_cells rfl⟩
  constructor
  case length_eq =>
    rw [cells, List.length_map, List.length_range]
    rfl
  case nodup =>
    rw [cells, List.map_map]
    exact List.Nodup.map (fun _ _ h => s.position_injective p h) List.nodup_range
  case mem_iff =>
    intro row column
    rw [cells, List.map_map, List.mem_map]
    constructor
    · rintro ⟨k, hk, hposition⟩
      cases hposition
      exact ⟨row_cell_lt p (List.mem_range.1 hk), column_cell_lt p k⟩
    · rintro ⟨hrow, hcolumn⟩
      obtain ⟨k, hk, hposition⟩ := s.exists_cell p hrow hcolumn
      exact ⟨k, List.mem_range.2 hk, hposition⟩
  case start =>
    obtain ⟨n, hn⟩ := Nat.exists_eq_succ_of_ne_zero (Nat.mul_pos s.width_pos s.height_pos).ne'
    have hfirst := s.position_cell p 0 s.width_pos
    rw [Nat.zero_mul, Nat.zero_add] at hfirst
    rw [cells, size, hn, List.range_succ_eq_map, List.map_cons, List.map_cons, List.head?_cons, hfirst]
    rfl
  case steps =>
    rw [cells, List.isChain_map, List.isChain_range]
    exact fun k _ => s.beside_cell p k
  case rows =>
    rw [cells, List.pairwise_map]
    exact List.pairwise_lt_range.imp fun hlt => Nat.div_le_div_right hlt.le

example : (({ columns := 2, rows := 3 } : SweepStyle).cells (.ofPixel 64)).map Cell.position =
    [(0, 0), (0, 1), (1, 1), (1, 0), (2, 0), (2, 1)] := by decide

end SweepStyle

end VectorDisplay
