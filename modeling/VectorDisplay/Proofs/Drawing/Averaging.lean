import VectorDisplay.Platform
import VectorDisplay.Proofs.Drawing.Accounting
import VectorDisplay.Proofs.Sweep.Sampling
/-!
Where the beam is on average. A batch takes positions of the buffer that follow one another, so its
samples at even and at odd positions differ by one at most in number, wherever it starts and however
much of it fits. Main statement: what is written of a batch averages to the place of its point or cell
at twice the resolution, up to half of one sample's step.
-/

set_option autoImplicit false

namespace VectorDisplay

/-- Coordinates whose sum is that of a fine coordinate, halved, up to half a step. There is no place
above the last one, which keeps its samples. -/
structure AveragesTo (fine : ℕ) (xs : List UInt8) : Prop where
  fine_le : fine ≤ fineMax
  near : fine < fineMax → |2 * ((xs.map UInt8.toNat).sum : ℤ) - xs.length * fine| ≤ 1
  last : fine = fineMax → ∀ x ∈ xs, x.toNat = deviceMax

section Folding

variable {fine : ℕ}

theorem fold_eq (hfine : fine < fineMax) (odd : Bool) :
    fold fine odd = fine / 2 + if fine % 2 = 1 ∧ odd then 1 else 0 := by
  have hmax : fine < 511 := hfine
  refine Nat.min_eq_left ?_
  unfold deviceMax
  split <;> omega

theorem two_mul_fold (hfine : fine < fineMax) (i : ℕ) :
    2 * fold fine (i % 2 = 1) + fine % 2 * ((i + 1) % 2) = fine + fine % 2 * (i % 2) := by
  rw [fold_eq hfine]
  rcases Nat.mod_two_eq_zero_or_one fine with heven | hodd
  · simp only [heven, Nat.zero_mul, zero_ne_one, false_and, if_false]
    omega
  · simp only [hodd, Nat.one_mul, true_and, decide_eq_true_eq]
    split <;> omega

theorem fold_fineMax (odd : Bool) : fold fineMax odd = deviceMax := by
  cases odd <;> decide

/-- Along positions that follow one another, what is short cancels but for the ends. -/
theorem two_mul_sum_fold (hfine : fine < fineMax) (start n : ℕ) :
    2 * ((List.range' start n).map fun i => fold fine (i % 2 = 1)).sum +
        fine % 2 * ((start + n) % 2) = n * fine + fine % 2 * (start % 2) := by
  induction n with
  | zero => simp
  | succ n ih =>
    have hstep := two_mul_fold hfine (start + n)
    rw [List.range'_concat, List.map_append, List.sum_append, List.map_singleton, List.sum_singleton,
      Nat.one_mul, Nat.add_mul n 1 fine, Nat.one_mul, ← Nat.add_assoc start n 1]
    omega

theorem averagesTo_of_fold {place : ℕ → UInt8} (hfine : fine ≤ fineMax)
    (hplace : ∀ i, (place i).toNat = fold fine (i % 2 = 1)) (start n : ℕ) :
    AveragesTo fine ((List.range' start n).map place) where
  fine_le := hfine
  near hlt := by
    have hsum := two_mul_sum_fold hlt start n
    have hmap : ((List.range' start n).map place).map UInt8.toNat =
        (List.range' start n).map fun i => fold fine (i % 2 = 1) := by
      rw [List.map_map]
      exact List.map_congr_left fun i _ => hplace i
    have hends (i : ℕ) : fine % 2 * (i % 2) ≤ 1 :=
      Nat.mul_le_mul (Nat.le_of_lt_succ (Nat.mod_lt _ two_pos))
        (Nat.le_of_lt_succ (Nat.mod_lt _ two_pos))
    have hstart := hends start
    have hend := hends (start + n)
    rw [hmap, List.length_map, List.length_range', abs_le]
    constructor <;> omega
  last heq := by
    intro x hx
    obtain ⟨i, -, rfl⟩ := List.mem_map.1 hx
    rw [hplace, heq, fold_fineMax]

end Folding

namespace Batch

/-- What is written of batches from a position on, apart, until there is no room left. -/
def pieces : List Batch → (start room : ℕ) → List (List Sample)
  | [], _, _ => []
  | b :: rest, start, room =>
    Buffer.written b.sample start (min b.count room) ::
      pieces rest (start + b.count) (room - b.count)

theorem flatten_pieces (batches : List Batch) (start room : ℕ) :
    (pieces batches start room).flatten = (stream batches start).take room := by
  induction batches generalizing start room with
  | nil => simp [pieces, stream]
  | cons b rest ih =>
    rw [pieces, List.flatten_cons, ih, stream, List.take_append, Buffer.take_written,
      Buffer.length_written]

theorem forall₂_pieces {β : Type} {R : β → List Sample → Prop} {xs : List β} {batches : List Batch}
    (h : List.Forall₂ (fun x b => ∀ start n, R x (Buffer.written b.sample start n)) xs batches)
    (start room : ℕ) : List.Forall₂ R xs (pieces batches start room) := by
  induction h generalizing start room with
  | nil => exact .nil
  | cons hb _ ih => exact .cons (hb _ _) (ih _ _)

end Batch

section Points

/-- The points at which the beam rests along a leg: twice at the first if it travels there, dark and
lit, and then at each. -/
def Leg.stops {α : Type} [Amount α] (speed : α) (l : Leg α) : List Point :=
  match l.contour.head? with
  | none => []
  | some first => if Amount.positive speed then first :: first :: l.contour else l.contour

namespace Emission

variable {α : Type} [Amount α] {scale speed dark : α} {brightness : Point → α}
  {variants : Point → Variants}

theorem variants_points (c : Contour) (carry : α) :
    List.Forall₂ (fun pt b => b.variants = variants pt) c
      (points scale brightness variants c carry).1 := by
  induction c generalizing carry with
  | nil => exact .nil
  | cons pt rest ih => exact .cons rfl (ih _)

theorem variants_leg (l : Leg α) (carry : α) :
    List.Forall₂ (fun pt b => b.variants = variants pt) (l.stops speed)
      (leg scale speed dark brightness variants l carry).1 := by
  unfold Leg.stops leg
  cases l.contour.head? with
  | none => exact .nil
  | some first =>
    cases Amount.positive speed with
    | true => exact .cons rfl (.cons rfl (variants_points _ _))
    | false => exact variants_points _ _

theorem variants_legs (ls : List (Leg α)) (carry : α) :
    List.Forall₂ (fun pt b => b.variants = variants pt) (ls.flatMap (Leg.stops speed))
      (legs scale speed dark brightness variants ls carry) := by
  induction ls generalizing carry with
  | nil => exact .nil
  | cons l rest ih =>
    rw [List.flatMap_cons]
    exact List.rel_append (variants_leg l carry) (ih _)

end Emission

structure Projection.Averages (projection : Projection) (pt : Point) (piece : List Sample) :
    Prop where
  x : AveragesTo (projection.fine pt).1 (piece.map Sample.x)
  y : AveragesTo (projection.fine pt).2 (piece.map Sample.y)

theorem Projection.toNat_pick {projection : Projection} (hdither : projection.dither = true)
    (pt : Point) (i : ℕ) :
    ((projection.variants pt).pick i).1.toNat = fold (projection.fine pt).1 (i % 2 = 1) ∧
      ((projection.variants pt).pick i).2.toNat = fold (projection.fine pt).2 (i % 2 = 1) := by
  have hpick : (projection.variants pt).pick i = projection.place pt (i % 2 = 1) := by
    rcases Nat.mod_two_eq_zero_or_one i with hi | hi <;> simp [Variants.pick, variants, hi]
  rw [hpick]
  exact toNat_place_of_dither hdither pt _

theorem Projection.averages_written {projection : Projection} (hdither : projection.dither = true)
    {pt : Point} {b : Batch} (hb : b.variants = projection.variants pt) (start n : ℕ) :
    projection.Averages pt (Buffer.written b.sample start n) := by
  have hpick := toNat_pick hdither pt
  rw [← hb] at hpick
  unfold Buffer.written
  constructor
  · rw [List.map_map]
    exact averagesTo_of_fold (scaleAxis_le _ _ _) (fun i => (hpick i).1) start n
  · rw [List.map_map]
    exact averagesTo_of_fold (Nat.sub_le _ _) (fun i => (hpick i).2) start n

theorem ContourStyle.averages_pieces {style : ContourStyle} (hdither : style.dither = true)
    (p : Picture) (plan : Plan Float) (capacity start room : ℕ) :
    List.Forall₂ (Projection.Averages ⟨p.width, p.height, true⟩)
      (plan.legs.flatMap (Leg.stops style.speed))
      (Batch.pieces (style.parts p plan capacity).flatten start room) := by
  rw [parts, hdither, Plan.parts, Emission.flatten_parts]
  refine Batch.forall₂_pieces ?_ start room
  refine (Emission.variants_legs plan.legs Amount.zero).imp ?_
  intro pt b hb
  exact Projection.averages_written rfl hb

end Points

namespace SweepStyle

open Sweep

/-- Samples of a cell, which average to its fine column or, in the last column, are all there. -/
structure Averages (s : SweepStyle) (c : Cell) (piece : List Sample) : Prop where
  inner : c.column + 1 ≠ s.width → AveragesTo (512 * c.column / s.width) (piece.map Sample.x)
  last : c.column + 1 = s.width → ∀ x ∈ piece.map Sample.x, x.toNat = 512 * c.column / s.width / 2

variable {s : SweepStyle} {c : Cell}

theorem averages_written (hcolumn : c.column < s.width) (hrow : c.row < s.height)
    (total capacity start n : ℕ) :
    s.Averages c (Buffer.written (s.rest total capacity c).sample start n) := by
  have hlt : 512 * c.column / s.width < 512 := by
    rw [Nat.mul_comm]
    exact mul_div_lt hcolumn (by decide)
  have hpick (i : ℕ) : ((s.rest total capacity c).sample i).x.toNat =
      fold (512 * c.column / s.width) (decide (i % 2 = 1) && decide (c.column + 1 ≠ s.width)) :=
    (toNat_pick hrow i).1
  unfold Buffer.written
  constructor <;> rw [List.map_map]
  · intro hinner
    refine averagesTo_of_fold (Nat.le_of_lt_succ hlt) (fun i => ?_) start n
    rw [Function.comp_apply, hpick, decide_eq_true hinner, Bool.and_true]
  · intro hlast x hx
    obtain ⟨i, -, rfl⟩ := List.mem_map.1 hx
    rw [Function.comp_apply, hpick, decide_eq_false (not_not_intro hlast), Bool.and_false, fold_even]
    exact Nat.min_eq_left (Nat.le_of_lt_succ (Nat.div_lt_of_lt_mul hlt))

theorem averages_pieces (s : SweepStyle) (p : Picture) (total capacity start room : ℕ) :
    List.Forall₂ s.Averages (s.cells p)
      (Batch.pieces ((s.cells p).map (s.rest total capacity)) start room) := by
  refine Batch.forall₂_pieces ?_ start room
  rw [List.forall₂_map_right_iff, List.forall₂_same]
  intro c hc
  obtain ⟨k, hk, rfl⟩ := List.mem_map.1 hc
  exact averages_written (column_cell_lt p k) (row_cell_lt p (List.mem_range.1 hk)) total capacity

end SweepStyle

/-- Whatever is written of a batch averages to the place at twice the resolution: dithered, that of its
point on both axes, and in a sweep that of its cell across, but for the last column. -/
theorem pieces_average [Hypot] (p : Picture) (before : Buffer) :
    (∀ (style : ContourStyle) (contours : List Contour) (after : Buffer) (r : Report),
      style.dither = true → style.draw p contours before = .ok (r, after) →
        ∃ plan pieces, style.plan p contours = .ok plan ∧
          (plan.legs.map Leg.contour).Perm (style.keep contours) ∧
          pieces = Batch.pieces (style.parts p plan before.remaining).flatten before.size
            before.remaining ∧
          List.Forall₂ (Projection.Averages ⟨p.width, p.height, true⟩)
            (plan.legs.flatMap (Leg.stops style.speed)) pieces ∧
          (r.path before after = pieces.flatten ∨
            scaleFor plan.total before.remaining = none ∧ r.path before after = [])) ∧
    ∀ (style : SweepStyle) (swept : SweepStyle.Swept), style.draw p before = .ok swept →
      ∃ pieces, pieces = Batch.pieces ((style.cells p).map
          (style.rest (style.total p) before.remaining)) before.size before.remaining ∧
        List.Forall₂ style.Averages (style.cells p) pieces ∧
        swept.report.path before swept.buffer = pieces.flatten := by
  constructor
  · intro style contours after r hdither h
    obtain ⟨plan, path, hplan, hpath, hlist, hcount⟩ := ContourStyle.toList_draw h
    obtain ⟨arranged, harranged, hlegs, -⟩ := ContourStyle.plan_eq_ok hplan
    refine ⟨plan, _, hplan, ?_, rfl, style.averages_pieces hdither p plan _ _ _, ?_⟩
    · rw [Plan.contours_of_legsFrom hlegs]
      exact DrawingOrder.perm_of_arrange harranged
    rw [Filled.path_eq hlist hcount, hpath, Batch.flatten_pieces]
    cases hscale : scaleFor plan.total before.remaining with
    | some scale =>
      left
      exact congrArg (List.take _) (Plan.emission_eq_stream hscale)
    | none =>
      right
      refine ⟨rfl, ?_⟩
      rw [show style.emission p plan before.remaining before.size = [] from
        Plan.emission_eq_nil hscale, List.take_nil]
  · intro style swept h
    refine ⟨_, rfl, style.averages_pieces p _ _ _ _, ?_⟩
    rw [SweepStyle.path_eq_take h, Batch.flatten_pieces]

open scoped Platform in
theorem pieces_average_halves :
    let p : Picture := ⟨⟨#[0, 0]⟩, 2, 1, 2, none, by decide, by decide, by decide, by decide⟩
    let before : Buffer := .holding #[⟨9, 9, 9⟩] 300
    let style : ContourStyle := { speed := 5e-324, minLength := 1, dither := true }
    let sweep : SweepStyle := { columns := 6, rows := 1 }
    (∃ r after plan pieces, style.draw p [[⟨1, 0⟩]] before = .ok (r, after) ∧
      (r.isCut = true ∧ Projection.fine ⟨2, 1, true⟩ ⟨1, 0⟩ = (255, 511)) ∧
      pieces = Batch.pieces (style.parts p plan 300).flatten 1 300 ∧
      List.Forall₂ (Projection.Averages ⟨2, 1, true⟩)
        (plan.legs.flatMap (Leg.stops style.speed)) pieces) ∧
    ∃ swept pieces, sweep.draw p before = .ok swept ∧
      List.Forall₂ sweep.Averages (sweep.cells p) pieces ∧
      swept.report.path before swept.buffer = pieces.flatten := by
  intro p before style sweep
  obtain ⟨hcontour, hsweep⟩ := pieces_average p before
  have hok : (match style.draw p [[⟨1, 0⟩]] before with
      | .ok (r, _) => r.isCut
      | .error _ => false) = true := by decide +kernel
  obtain ⟨swept, hswept⟩ := exists_of_isOk (c := sweep.draw p before) (by decide +kernel)
  obtain ⟨cells, -, haverage, hpath⟩ := hsweep sweep swept hswept
  refine ⟨?_, swept, cells, hswept, haverage, hpath⟩
  split at hok
  · next r after h =>
    obtain ⟨plan, pieces, -, -, hpieces, hpoints, -⟩ := hcontour style _ after r rfl h
    exact ⟨r, after, plan, pieces, h, ⟨hok, by decide⟩, hpieces, hpoints⟩
  · cases hok

end VectorDisplay
