import VectorDisplay.Proofs.Sweep.Sampling
/-!
How a sweep crosses the rows of its grid. Its path is a stretch of samples for each row, and the first
and the last column are bright enough to get a sample as soon as there are 1.2 of them for every cell.
Main statement: with that much room the beam enters every row at one edge and leaves it at the other,
lit and on the row's line, and rows follow one another in alternating directions.
-/

set_option autoImplicit false

namespace VectorDisplay

namespace Batch

variable {b : Batch} {batches : List Batch}

theorem stream_flatMap_range (f : ℕ → List Batch) (n start : ℕ) :
    stream ((List.range n).flatMap f) start =
      (List.range n).flatMap fun k => stream (f k) (start + total ((List.range k).flatMap f)) := by
  induction n with
  | zero => rfl
  | succ n ih =>
    rw [List.range_succ, List.flatMap_append, stream_append, ih, List.flatMap_append,
      List.flatMap_singleton, List.flatMap_singleton]

theorem head?_stream (hcount : 0 < b.count) (rest : List Batch) (start : ℕ) :
    (stream (b :: rest) start).head? = some (b.sample start) := by
  obtain ⟨n, hn⟩ := Nat.exists_eq_succ_of_ne_zero hcount.ne'
  rw [stream, hn, Buffer.written, List.range'_succ, List.map_cons, List.cons_append, List.head?_cons]

theorem getLast?_stream (hcount : 0 < b.count) (start : ℕ) :
    ∃ i, (stream (batches ++ [b]) start).getLast? = some (b.sample i) := by
  obtain ⟨n, hn⟩ := Nat.exists_eq_succ_of_ne_zero hcount.ne'
  refine ⟨start + total batches + n, ?_⟩
  rw [stream_append, stream, stream, List.append_nil, hn, Buffer.written, List.range'_concat,
    List.map_append, ← List.append_assoc, List.map_singleton, List.getLast?_concat, Nat.one_mul]

theorem pairwise_stream {R : Sample → Sample → Prop}
    (hsame : ∀ b ∈ batches, ∀ i j, R (b.sample i) (b.sample j))
    (hnext : batches.Pairwise fun b c => ∀ i j, R (b.sample i) (c.sample j)) (start : ℕ) :
    (stream batches start).Pairwise R := by
  induction batches generalizing start with
  | nil => exact .nil
  | cons b rest ih =>
    obtain ⟨hfirst, hrest⟩ := List.pairwise_cons.1 hnext
    obtain ⟨hown, hothers⟩ := List.forall_mem_cons.1 hsame
    refine List.pairwise_append.2 ⟨?_, ih hothers hrest _, ?_⟩
    · rw [Buffer.written, List.pairwise_map]
      exact List.pairwise_of_forall fun i j => hown i j
    · intro x hx y hy
      obtain ⟨i, -, rfl⟩ := List.mem_map.1 hx
      obtain ⟨c, hc, j, rfl⟩ := exists_of_mem_stream hy
      exact hfirst c hc i j

end Batch

namespace SweepStyle

open Sweep

def rowCells (s : SweepStyle) (p : Picture) (row : ℕ) : List Cell :=
  (List.range s.width).map fun i => s.cell p (row * s.width + i)

def rowBatches (s : SweepStyle) (p : Picture) (capacity row : ℕ) : List Batch :=
  (s.rowCells p row).map (s.rest (s.total p) capacity)

def rowPath (s : SweepStyle) (p : Picture) (before : Buffer) (row : ℕ) : List Sample :=
  Batch.stream (s.rowBatches p before.remaining row) (before.size +
    Batch.total ((List.range row).flatMap (s.rowBatches p before.remaining)))

/-- Where the beam enters a row: even rows at the left edge and odd rows at the right one. -/
def entry (s : SweepStyle) (row : ℕ) : ℕ := if row % 2 = 0 then 0 else 256 * (s.width - 1) / s.width

def exit (s : SweepStyle) (row : ℕ) : ℕ := if row % 2 = 0 then 256 * (s.width - 1) / s.width else 0

/-- The beam crosses a row: lit and on the row's line, it goes from one edge to the other and never back
to the first. -/
structure Crosses (s : SweepStyle) (row : ℕ) (samples : List Sample) : Prop where
  lit : ∀ a ∈ samples, a.isLit = true
  line : ∀ a ∈ samples, a.y.toNat = 256 * row / s.height
  enters : ∃ a, samples.head? = some a ∧ a.x.toNat = s.entry row
  leaves : ∃ a, samples.getLast? = some a ∧ a.x.toNat = s.exit row
  onward : 2 ≤ s.width →
    samples.Pairwise fun a b => ¬ (a.x.toNat = s.exit row ∧ b.x.toNat = s.entry row)

variable {s : SweepStyle} {p : Picture}

section Rows

theorem cells_eq_flatMap (s : SweepStyle) (p : Picture) :
    s.cells p = (List.range s.height).flatMap (s.rowCells p) := by
  have hrows (n : ℕ) : (List.range (n * s.width)).map (s.cell p) =
      (List.range n).flatMap (s.rowCells p) := by
    induction n with
    | zero => simp
    | succ n ih =>
      rw [Nat.succ_mul, List.range_add, List.map_append, ih, List.map_map, List.range_succ,
        List.flatMap_append, List.flatMap_singleton]
      rfl
  rw [cells, size, Nat.mul_comm]
  exact hrows s.height

theorem exists_rowCells_cons (s : SweepStyle) (p : Picture) (row : ℕ) :
    ∃ rest, s.rowCells p row = s.cell p (row * s.width + 0) :: rest := by
  have hrange : List.range s.width = List.range (s.width - 1 + 1) := by
    rw [Nat.sub_add_cancel s.width_pos]
  rw [rowCells, hrange, List.range_succ_eq_map, List.map_cons]
  exact ⟨_, rfl⟩

theorem exists_rowCells_concat (s : SweepStyle) (p : Picture) (row : ℕ) :
    ∃ init, s.rowCells p row = init ++ [s.cell p (row * s.width + (s.width - 1))] := by
  have hrange : List.range s.width = List.range (s.width - 1 + 1) := by
    rw [Nat.sub_add_cancel s.width_pos]
  rw [rowCells, hrange, List.range_succ, List.map_append, List.map_singleton]
  exact ⟨_, rfl⟩

theorem column_cell (s : SweepStyle) (p : Picture) (row : ℕ) {i : ℕ} (hi : i < s.width) :
    (s.cell p (row * s.width + i)).column = if row % 2 = 1 then s.width - 1 - i else i :=
  congrArg Prod.snd (s.position_cell p row hi)

theorem row_cell (s : SweepStyle) (p : Picture) (row : ℕ) {i : ℕ} (hi : i < s.width) :
    (s.cell p (row * s.width + i)).row = row :=
  congrArg Prod.fst (s.position_cell p row hi)

end Rows

section Places

/-- The place across of a column, at the resolution of the device. -/
def across (s : SweepStyle) (column : ℕ) : ℕ := 256 * column / s.width

theorem across_mono : Monotone s.across :=
  fun _ _ hle => Nat.div_le_div_right (Nat.mul_le_mul_left _ hle)

theorem across_zero : s.across 0 = 0 := by
  rw [across, Nat.mul_zero, Nat.zero_div]

def AtEdge (s : SweepStyle) (c : Cell) : Prop := c.column = 0 ∨ c.column = s.width - 1

theorem first_cell (s : SweepStyle) (p : Picture) (row : ℕ) :
    s.AtEdge (s.cell p (row * s.width + 0)) ∧
      s.across (s.cell p (row * s.width + 0)).column = s.entry row := by
  unfold AtEdge
  rw [column_cell s p row s.width_pos]
  rcases Nat.mod_two_eq_zero_or_one row with hrow | hrow <;> simp [entry, hrow, across]

theorem last_cell (s : SweepStyle) (p : Picture) (row : ℕ) :
    s.AtEdge (s.cell p (row * s.width + (s.width - 1))) ∧
      s.across (s.cell p (row * s.width + (s.width - 1))).column = s.exit row := by
  unfold AtEdge
  rw [column_cell s p row (Nat.sub_lt s.width_pos one_pos)]
  rcases Nat.mod_two_eq_zero_or_one row with hrow | hrow <;> simp [exit, hrow, across]

theorem le_across_last (hwidth : 2 ≤ s.width) : 128 ≤ s.across (s.width - 1) := by
  unfold across
  rw [Nat.le_div_iff_mul_le s.width_pos]
  omega

theorem across_le {column : ℕ} (hcolumn : column < s.width) : s.across column ≤ deviceMax := by
  unfold across
  rw [Nat.mul_comm]
  exact mul_div_le_deviceMax hcolumn

theorem fine_half (s : SweepStyle) (column : ℕ) :
    2 * (deviceMax + 1) * column / s.width / 2 = s.across column := by
  rw [Nat.mul_assoc, Nat.div_div_eq_div_mul, Nat.mul_comm s.width, Nat.mul_div_mul_left _ _ two_pos]
  rfl

variable {c d : Cell}

theorem toNat_pick_near (hcolumn : c.column < s.width) (hrow : c.row < s.height) (i : ℕ) :
    s.across c.column ≤ ((s.variants c).pick i).1.toNat ∧
      ((s.variants c).pick i).1.toNat ≤ s.across c.column + 1 := by
  have hmax := across_le hcolumn
  rw [(toNat_pick hrow i).1]
  unfold fold
  rw [fine_half]
  split <;> omega

theorem toNat_pick_edge (hrow : c.row < s.height) (hedge : s.AtEdge c) (i : ℕ) :
    ((s.variants c).pick i).1.toNat = s.across c.column := by
  have hwidth := s.width_pos
  rw [(toNat_pick hrow i).1]
  rcases hedge with hleft | hright
  · rw [hleft, across_zero, Nat.mul_zero, Nat.zero_div]
    exact Nat.min_eq_left (Nat.zero_le _)
  · have hstays : decide (c.column + 1 ≠ s.width) = false := decide_eq_false (by omega)
    rw [hstays, Bool.and_false, fold_even, fine_half, Nat.min_eq_left (across_le (by omega))]

theorem not_exit_entry {row : ℕ} (hwidth : 2 ≤ s.width) (hc : c.column < s.width ∧ c.row < s.height)
    (hd : d.column < s.width ∧ d.row < s.height)
    (horder : if row % 2 = 0 then c.column ≤ d.column else d.column ≤ c.column) (i j : ℕ) :
    ¬ (((s.variants c).pick i).1.toNat = s.exit row ∧
      ((s.variants d).pick j).1.toNat = s.entry row) := by
  have hlast : 128 ≤ 256 * (s.width - 1) / s.width := le_across_last hwidth
  have hcNear := toNat_pick_near hc.1 hc.2 i
  have hdNear := toNat_pick_near hd.1 hd.2 j
  rintro ⟨hexit, hentry⟩
  unfold exit at hexit
  unfold entry at hentry
  split at horder
  · next heven =>
    rw [if_pos heven] at hexit hentry
    have := across_mono (s := s) horder
    omega
  · next hodd =>
    rw [if_neg hodd] at hexit hentry
    have := across_mono (s := s) horder
    omega

end Places

section Crossing

variable {before : Buffer} {row : ℕ}

theorem due_edge_pos {capacity k : ℕ} (hedge : s.AtEdge (s.cell p k))
    (hlarge : 256 ^ 3 * s.size ≤ 241 ^ 3 * capacity) : 0 < s.due p capacity k := by
  have hbright : (s.cell p k).brightness = edgeBrightness := brightness_edge (s.cell p k).row hedge
  have htotal := s.total_le p
  rw [total_eq_gridWeight] at htotal
  rw [due, hbright]
  refine Nat.div_pos ?_ (s.gridWeight_pos p)
  calc s.gridWeight p ≤ s.size * 2 ^ 24 := htotal
    _ = 256 ^ 3 * s.size := Nat.mul_comm _ _
    _ ≤ 241 ^ 3 * capacity := hlarge

theorem count_edge_pos {i : ℕ} (hroom : before.remaining < 2 ^ 64)
    (hlarge : 256 ^ 3 * s.size ≤ 241 ^ 3 * before.remaining) (hrow : row < s.height)
    (hi : i < s.width) (hedge : s.AtEdge (s.cell p (row * s.width + i))) :
    0 < (s.rest (s.total p) before.remaining (s.cell p (row * s.width + i))).count := by
  have hcount : (s.batch p (s.total p) before.remaining (row * s.width + i)).count =
      s.due p before.remaining (row * s.width + i) :=
    congrArg Batch.count (batch_eq (place_lt hrow hi) hroom)
  exact hcount ▸ due_edge_pos hedge hlarge

theorem exists_of_mem_rowBatches {capacity : ℕ} {b : Batch}
    (h : b ∈ s.rowBatches p capacity row) :
    ∃ i < s.width, b = s.rest (s.total p) capacity (s.cell p (row * s.width + i)) := by
  obtain ⟨c, hc, rfl⟩ := List.mem_map.1 h
  obtain ⟨i, hi, rfl⟩ := List.mem_map.1 hc
  exact ⟨i, List.mem_range.1 hi, rfl⟩

theorem crosses (hroom : before.remaining < 2 ^ 64)
    (hlarge : 256 ^ 3 * s.size ≤ 241 ^ 3 * before.remaining) (hrow : row < s.height) :
    s.Crosses row (s.rowPath p before row) := by
  have hwidth := s.width_pos
  have hinside {i : ℕ} (hi : i < s.width) : (s.cell p (row * s.width + i)).column < s.width ∧
      (s.cell p (row * s.width + i)).row < s.height :=
    ⟨column_cell_lt p _, row_cell_lt p (place_lt hrow hi)⟩
  constructor
  case lit =>
    intro a ha
    refine Batch.isLit_of_mem_stream (fun b hb => ?_) ha
    obtain ⟨i, -, rfl⟩ := exists_of_mem_rowBatches hb
    rfl
  case line =>
    intro a ha
    obtain ⟨b, hb, j, rfl⟩ := Batch.exists_of_mem_stream ha
    obtain ⟨i, hi, rfl⟩ := exists_of_mem_rowBatches hb
    have hline := (toNat_pick (hinside hi).2 j).2
    rw [row_cell s p row hi] at hline
    exact hline
  case enters =>
    obtain ⟨rest, hcells⟩ := s.exists_rowCells_cons p row
    obtain ⟨hedge, hplace⟩ := s.first_cell p row
    rw [rowPath, rowBatches, hcells, List.map_cons,
      Batch.head?_stream (count_edge_pos hroom hlarge hrow hwidth hedge)]
    exact ⟨_, rfl, (toNat_pick_edge (hinside hwidth).2 hedge _).trans hplace⟩
  case leaves =>
    obtain ⟨init, hcells⟩ := s.exists_rowCells_concat p row
    have hlast : s.width - 1 < s.width := Nat.sub_lt hwidth one_pos
    obtain ⟨hedge, hplace⟩ := s.last_cell p row
    obtain ⟨j, hend⟩ :=
      Batch.getLast?_stream (count_edge_pos hroom hlarge hrow hlast hedge) _
    rw [rowPath, rowBatches, hcells, List.map_append, List.map_singleton]
    exact ⟨_, hend, (toNat_pick_edge (hinside hlast).2 hedge j).trans hplace⟩
  case onward =>
    intro htwo
    refine Batch.pairwise_stream ?_ ?_ _
    · intro b hb
      obtain ⟨i, hi, rfl⟩ := exists_of_mem_rowBatches hb
      refine not_exit_entry htwo (hinside hi) (hinside hi) ?_
      split <;> rfl
    · rw [rowBatches, rowCells, List.map_map, List.pairwise_map]
      refine List.pairwise_lt_range.imp_of_mem fun {i j} hi hj hlt => ?_
      rw [List.mem_range] at hi hj
      refine not_exit_entry htwo (hinside hi) (hinside hj) ?_
      rw [column_cell s p row hi, column_cell s p row hj]
      split <;> split <;> omega

/-- With enough room, the path of a sweep is one stretch of samples a row, and each of them crosses its
row. -/
theorem crosses_every_row (s : SweepStyle) (p : Picture) (before : Buffer)
    (hsize : max s.columns.toNat 1 * max s.rows.toNat 1 * 2 ^ 24 < 2 ^ 64)
    (hroom : before.remaining < 2 ^ 64)
    (hlarge : 256 ^ 3 * (max s.columns.toNat 1 * max s.rows.toNat 1) ≤ 241 ^ 3 * before.remaining) :
    ∃ swept, s.draw p before = .ok swept ∧
      swept.report.path before swept.buffer =
        (List.range (max s.rows.toNat 1)).flatMap (s.rowPath p before) ∧
      ∀ row < max s.rows.toNat 1, s.Crosses row (s.rowPath p before row) := by
  obtain ⟨swept, h⟩ := exists_draw_eq_ok (p := p) hsize before
  refine ⟨swept, h, ?_, fun row hrow => crosses hroom hlarge hrow⟩
  have hrests : (s.cells p).map (s.rest (s.total p) before.remaining) =
      s.rests p before.remaining := by
    rw [cells, List.map_map]
    exact List.map_congr_left fun k hk => batch_eq (List.mem_range.1 hk) hroom
  have hfits : Batch.total ((s.cells p).map (s.rest (s.total p) before.remaining)) ≤
      before.remaining := by
    rw [hrests, total_rests]
    exact sum_shares_le _ (s.sum_weights p ▸ s.gridWeight_pos p)
  rw [path_eq_take h, List.take_of_length_le (by rwa [Batch.length_stream]), cells_eq_flatMap,
    List.map_flatMap]
  exact Batch.stream_flatMap_range _ _ _

theorem crosses_every_row_dark :
    ∃ swept, ({ columns := 3, rows := 2 } : SweepStyle).draw (.ofPixel 0)
        (.holding #[⟨9, 9, 9⟩] 8) = .ok swept ∧
      swept.report.path (.holding #[⟨9, 9, 9⟩] 8) swept.buffer =
        [0, 1].flatMap (({ columns := 3, rows := 2 } : SweepStyle).rowPath (.ofPixel 0)
          (.holding #[⟨9, 9, 9⟩] 8)) ∧
      (({ columns := 3, rows := 2 } : SweepStyle).rowPath (.ofPixel 0) (.holding #[⟨9, 9, 9⟩] 8) 1).map
        (fun a => (a.x, a.y)) = [(170, 128), (0, 128)] ∧
      ({ columns := 3, rows := 2 } : SweepStyle).Crosses 1
        (({ columns := 3, rows := 2 } : SweepStyle).rowPath (.ofPixel 0) (.holding #[⟨9, 9, 9⟩] 8) 1) := by
  obtain ⟨swept, h, hpath, hcross⟩ := crosses_every_row { columns := 3, rows := 2 } (.ofPixel 0)
    (.holding #[⟨9, 9, 9⟩] 8) (by decide) (by decide) (by decide)
  exact ⟨swept, h, hpath, by decide +kernel, hcross 1 (by decide)⟩

end Crossing

end SweepStyle

end VectorDisplay
