import Mathlib.Data.Rat.Floor
import Mathlib.Tactic.Linarith
import Mathlib.Tactic.Positivity
import VectorDisplay.Proofs.Contour.Order
import VectorDisplay.Proofs.Drawing.Counts
/-!
Budgeting without rounding errors. Amounts are fractions here, and distances any that are not negative.
What the carry holds is what was due so far less what was granted, so counts are the steps of one
running total that is rounded down. Main statement: contours in exact arithmetic are drawn whole and
fill the free space to its last place.
-/

set_option autoImplicit false

namespace VectorDisplay

/-- Exact amounts: all of them are finite, and counts have no bound. -/
instance : Amount ℚ where
  ofNat n := n
  add := (· + ·)
  sub := (· - ·)
  mul := (· * ·)
  div := (· / ·)
  whole a := (⌊a⌋₊ : ℚ)
  units a := ⌊a⌋₊
  positive a := 0 < a
  finite _ := true

/-- The counts of demands: each takes the samples between the running totals before and behind it,
brought to the capacity and rounded down. -/
def steps (capacity : ℕ) (demands : List ℚ) : List ℕ :=
  (List.range demands.length).map fun k =>
    ⌊capacity * (demands.take (k + 1)).sum / demands.sum⌋₊ -
      ⌊capacity * (demands.take k).sum / demands.sum⌋₊

section Rounding

variable {s served d : ℚ}

theorem clip_of_nonneg {a : ℚ} (ha : 0 ≤ a) : Amount.clip a = a := by
  unfold Amount.clip
  split
  · rfl
  · next h =>
    have hle : a ≤ 0 := not_lt.1 fun hpos => h (decide_eq_true hpos)
    exact (le_antisymm hle ha).symm

theorem roundDemand_exact (hs : 0 ≤ s) (hserved : 0 ≤ served) (hd : 0 ≤ d) :
    roundDemand d s (s * served - ⌊s * served⌋₊) =
      (⌊s * (served + d)⌋₊ - ⌊s * served⌋₊,
        s * (served + d) - ⌊s * (served + d)⌋₊) := by
  have hbefore : (⌊s * served⌋₊ : ℚ) ≤ s * served := Nat.floor_le (mul_nonneg hs hserved)
  have hmono : ⌊s * served⌋₊ ≤ ⌊s * (served + d)⌋₊ :=
    Nat.floor_mono (mul_le_mul_of_nonneg_left (by linarith) hs)
  have hdue : Amount.clip (d * s + (s * served - ⌊s * served⌋₊)) =
      s * (served + d) - ⌊s * served⌋₊ := by
    rw [clip_of_nonneg (by have := mul_nonneg hd hs; linarith)]
    ring
  have hwhole : ⌊s * (served + d) - ⌊s * served⌋₊⌋₊ =
      ⌊s * (served + d)⌋₊ - ⌊s * served⌋₊ := Nat.floor_sub_natCast _ _
  change (⌊((⌊Amount.clip (d * s + (s * served - ⌊s * served⌋₊))⌋₊ : ℕ) : ℚ)⌋₊,
    Amount.clip (d * s + (s * served - ⌊s * served⌋₊)) -
      (⌊Amount.clip (d * s + (s * served - ⌊s * served⌋₊))⌋₊ : ℕ)) = _
  rw [hdue, hwhole, Nat.floor_natCast, Nat.cast_sub hmono, sub_sub_sub_cancel_right]

/-- Rounding one demand after the other steps through one running total. -/
theorem roundAll_exact (hs : 0 ≤ s) (hserved : 0 ≤ served) {demands : List ℚ}
    (hd : ∀ d ∈ demands, 0 ≤ d) :
    roundAll s demands (s * served - ⌊s * served⌋₊) =
      (List.range demands.length).map fun k =>
        ⌊s * (served + (demands.take (k + 1)).sum)⌋₊ - ⌊s * (served + (demands.take k).sum)⌋₊ := by
  induction demands generalizing served with
  | nil => rfl
  | cons d rest ih =>
    have hd0 := hd d List.mem_cons_self
    rw [roundAll, roundDemand_exact hs hserved hd0]
    dsimp only
    rw [ih (add_nonneg hserved hd0) fun e he => hd e (List.mem_cons_of_mem _ he),
      List.length_cons, List.range_succ_eq_map, List.map_cons, List.map_map]
    simp [Function.comp_def, add_assoc]

theorem sum_roundAll_exact (hs : 0 ≤ s) (hserved : 0 ≤ served) {demands : List ℚ}
    (hd : ∀ d ∈ demands, 0 ≤ d) :
    (roundAll s demands (s * served - ⌊s * served⌋₊)).sum + ⌊s * served⌋₊ =
      ⌊s * (served + demands.sum)⌋₊ := by
  induction demands generalizing served with
  | nil => simp [roundAll]
  | cons d rest ih =>
    have hd0 := hd d List.mem_cons_self
    have hmono : ⌊s * served⌋₊ ≤ ⌊s * (served + d)⌋₊ :=
      Nat.floor_mono (mul_le_mul_of_nonneg_left (by linarith) hs)
    have hrest := ih (add_nonneg hserved hd0) fun e he => hd e (List.mem_cons_of_mem _ he)
    rw [roundAll, roundDemand_exact hs hserved hd0, List.sum_cons, List.sum_cons, ← add_assoc served,
      ← hrest]
    omega

variable (capacity : ℕ) {demands : List ℚ}

theorem roundAll_eq_steps (hd : ∀ d ∈ demands, 0 ≤ d) (hpos : 0 < demands.sum) :
    roundAll (capacity / demands.sum) demands Amount.zero = steps capacity demands := by
  have hs : 0 ≤ capacity / demands.sum := by positivity
  have hzero : (Amount.zero : ℚ) =
      capacity / demands.sum * 0 - ⌊(capacity : ℚ) / demands.sum * 0⌋₊ := by
    simp [Amount.zero, Amount.ofNat]
  rw [hzero, roundAll_exact hs le_rfl hd]
  simp only [zero_add, steps, div_mul_eq_mul_div]

theorem sum_steps (hd : ∀ d ∈ demands, 0 ≤ d) (hpos : 0 < demands.sum) :
    (steps capacity demands).sum = capacity := by
  have hs : 0 ≤ capacity / demands.sum := by positivity
  have hsum := sum_roundAll_exact hs (le_refl 0) hd
  rw [mul_zero, Nat.floor_zero, Nat.cast_zero, sub_zero, zero_add, add_zero,
    div_mul_cancel₀ _ hpos.ne', Nat.floor_natCast] at hsum
  rw [← roundAll_eq_steps capacity hd hpos]
  exact hsum

theorem steps_eq_zero {k : ℕ} (h : demands[k]? = some 0) :
    (steps capacity demands)[k]? = some 0 := by
  obtain ⟨hk, hzero⟩ := List.getElem?_eq_some_iff.1 h
  have hnext : (demands.take (k + 1)).sum = (demands.take k).sum := by
    rw [List.take_succ_eq_append_getElem hk, List.sum_append, hzero]
    simp
  simp [steps, hk, hnext]

end Rounding

section Plans

variable {distance : Point → Point → ℚ} {speed : ℚ} {brightness : Point → ℚ}

/-- What contours demand one after the other, from where the beam is: each the travel to its start,
if travel takes samples, and then the brightness of its points. -/
def Contour.demands (distance : Point → Point → ℚ) (speed : ℚ) (brightness : Point → ℚ) :
    Point → List Contour → List ℚ
  | _, [] => []
  | here, c :: rest =>
    let travel : List ℚ :=
      match c.head? with
      | none => []
      | some first => if 0 < speed then [distance here first * speed] else []
    travel ++ c.map brightness ++ demands distance speed brightness (c.leave here) rest

theorem Contour.demands_nonneg (hdistance : ∀ a b, 0 ≤ distance a b) (hspeed : 0 ≤ speed)
    (hbrightness : ∀ p, 0 ≤ brightness p) {here : Point} {contours : List Contour} :
    ∀ d ∈ demands distance speed brightness here contours, 0 ≤ d := by
  induction contours generalizing here with
  | nil => simp [demands]
  | cons c rest ih =>
    intro d hd
    simp only [demands, List.mem_append] at hd
    rcases hd with (hd | hd) | hd
    · split at hd
      · simp at hd
      · split at hd
        · rw [List.mem_singleton.1 hd]
          exact mul_nonneg (hdistance _ _) hspeed
        · simp at hd
    · obtain ⟨p, -, rfl⟩ := List.mem_map.1 hd
      exact hbrightness p
    · exact ih d hd

theorem foldl_add_eq {β : Type} (f : β → ℚ) (l : List β) (a : ℚ) :
    l.foldl (fun sum b => sum + f b) a = a + (l.map f).sum := by
  induction l generalizing a with
  | nil => simp
  | cons b rest ih => simp [ih, add_assoc]

theorem Contour.ink_exact (c : Contour) : c.ink brightness = (c.map brightness).sum := by
  have h := foldl_add_eq brightness c 0
  rw [zero_add] at h
  exact h

theorem Plan.sum_exact (legs : List (Leg ℚ)) :
    sum brightness legs =
      (legs.map fun leg => leg.travel + (leg.contour.map brightness).sum).sum := by
  have h := foldl_add_eq (fun leg : Leg ℚ => leg.travel + (leg.contour.map brightness).sum) legs 0
  rw [zero_add] at h
  rw [← h]
  simp only [← Contour.ink_exact]
  rfl

variable (distance speed brightness) in
theorem Plan.exists_legsFrom_exact (dark : ℚ) (here : Point) (contours : List Contour) :
    ∃ legs, legsFrom (fun a b => .ok (distance a b)) speed here contours = .ok legs ∧
      legs.length = contours.length ∧
      (legs.flatMap (Leg.strokes speed dark brightness)).map Stroke.demand =
        Contour.demands distance speed brightness here contours ∧
      sum brightness legs = (Contour.demands distance speed brightness here contours).sum := by
  induction contours generalizing here with
  | nil => exact ⟨[], rfl, rfl, rfl, rfl⟩
  | cons c rest ih =>
    obtain ⟨legs, hlegs, hlength, hdemands, hsum⟩ := ih (c.leave here)
    rw [sum_exact] at hsum
    unfold legsFrom Contour.demands
    cases hhead : c.head? with
    | none =>
      simp only [hlegs]
      refine ⟨_, rfl, by simp [hlength], ?_, ?_⟩
      · simp [Leg.strokes, hhead, hdemands, Function.comp_def]
      · simp [sum_exact, hsum, Amount.zero, Amount.ofNat]
    | some first =>
      by_cases hspeed : 0 < speed
      · have hpositive : Amount.positive speed = true := decide_eq_true hspeed
        simp only [hpositive, hspeed, if_true, hlegs]
        refine ⟨_, rfl, by simp [hlength], ?_, ?_⟩
        · simp [Leg.strokes, hhead, hpositive, hdemands, Function.comp_def, Amount.mul]
        · simp [sum_exact, hsum, Amount.mul, add_assoc]
      · have hpositive : Amount.positive speed = false := decide_eq_false hspeed
        simp only [hpositive, hspeed, if_false, hlegs]
        refine ⟨_, rfl, by simp [hlength], ?_, ?_⟩
        · simp [Leg.strokes, hhead, hpositive, hdemands, Function.comp_def]
        · simp [sum_exact, hsum, Amount.zero, Amount.ofNat]

end Plans

/-- Contours in exact arithmetic are drawn whole, in whichever order, and fill the free space to its
last place: every demand takes the samples between two marks of one running total. -/
theorem ContourStyle.exact_budget (style : ContourStyle) (p : Picture)
    (contours arranged : List Contour) (harranged : arranged.Perm (style.keep contours))
    (distance : Point → Point → ℚ) (hdistance : ∀ a b, 0 ≤ distance a b)
    (speed : ℚ) (hspeed : 0 ≤ speed) (dark : ℚ) (before : Buffer) (hroom : before.remaining < 2 ^ 64)
    (demands : List ℚ) (hdemands : demands = Contour.demands distance speed
      (fun pt => (p.brightness pt.x pt.y).toNat) Point.origin arranged)
    (htotal : 0 < demands.sum) :
    ∃ plan d strokes,
      drawInOrder (fun a b => .ok (distance a b)) speed dark
        (fun pt => ((p.brightness pt.x pt.y).toNat : ℚ))
        (Projection.variants ⟨p.width, p.height, style.dither⟩) arranged before = .ok (plan, d) ∧
      plan.total = demands.sum ∧
      strokes = plan.legs.flatMap
        (Leg.strokes speed dark fun pt => ((p.brightness pt.x pt.y).toNat : ℚ)) ∧
      strokes.map Stroke.demand = demands ∧
      d.buffer.toList = before.toList ++ Batch.stream
        (Stroke.batchesOf (Projection.variants ⟨p.width, p.height, style.dither⟩) strokes
          (steps before.remaining demands)) before.size ∧
      d.cut = none ∧ d.drawn = (style.keep contours).length ∧
      d.buffer.size - before.size = before.remaining ∧ d.buffer.remaining = 0 ∧
      ∀ k : ℕ, demands[k]? = some 0 → (steps before.remaining demands)[k]? = some 0 := by
  obtain ⟨legs, hlegs, hlength, hstrokes, hsum⟩ := Plan.exists_legsFrom_exact distance speed
    (fun pt => ((p.brightness pt.x pt.y).toNat : ℚ)) dark Point.origin arranged
  rw [← hdemands] at hstrokes hsum
  have hnonneg : ∀ d ∈ demands, 0 ≤ d := by
    rw [hdemands]
    exact Contour.demands_nonneg hdistance hspeed fun pt => Nat.cast_nonneg _
  have hscale : scaleFor demands.sum before.remaining =
      some (before.remaining / demands.sum) := if_pos (decide_eq_true htotal)
  have hcounts : roundAll (before.remaining / demands.sum)
      ((legs.flatMap (Leg.strokes speed dark fun pt =>
        ((p.brightness pt.x pt.y).toNat : ℚ))).map Stroke.demand) Amount.zero =
          steps before.remaining demands := by
    rw [hstrokes, roundAll_eq_steps _ hnonneg htotal]
  have hfull := sum_steps before.remaining hnonneg htotal
  obtain ⟨after, hdraw, hlist, hsize, hleft⟩ := Plan.exists_draw_whole
    (Projection.variants ⟨p.width, p.height, style.dither⟩) ⟨legs, demands.sum⟩ hscale rfl
    (by rw [hcounts, hfull]; exact hroom) (by rw [hcounts, hfull])
  rw [hcounts] at hlist
  rw [hcounts, hfull] at hsize hleft
  rw [Nat.sub_self] at hleft
  have hdrawn : drawInOrder (fun a b => .ok (distance a b)) speed dark
      (fun pt => ((p.brightness pt.x pt.y).toNat : ℚ))
      (Projection.variants ⟨p.width, p.height, style.dither⟩) arranged before =
        .ok (⟨legs, demands.sum⟩,
          ⟨after, some (before.remaining / demands.sum), legs.length, none⟩) := by
    simp only [drawInOrder, Plan.ofContours, hlegs, hsum, hdraw]
  exact ⟨_, _, _, hdrawn, rfl, rfl, hstrokes, hlist, rfl, hlength.trans harranged.length_eq,
    by rw [hsize, Nat.add_sub_cancel_left], hleft, fun k => steps_eq_zero _⟩

theorem ContourStyle.exact_budget_pixel :
    ∃ plan d, drawInOrder
        (fun a b => .ok ((a.x.toInt - b.x.toInt).natAbs + (a.y.toInt - b.y.toInt).natAbs : ℚ))
        (1 / 2) (1 / 2) (fun pt => (((Picture.ofPixel 64).brightness pt.x pt.y).toNat : ℚ))
        (Projection.variants ⟨1, 1, false⟩) [[⟨0, 0⟩, ⟨5, 5⟩], [⟨0, 0⟩]]
        (.holding #[⟨9, 9, 9⟩] 10) = .ok (plan, d) ∧
      plan.total = 133 ∧ d.cut = none ∧ d.drawn = 2 ∧ d.buffer.size - 1 = 10 ∧
      d.buffer.remaining = 0 ∧ steps 10 [0, 64, 0, 5, 64] = [0, 4, 0, 1, 5] := by
  obtain ⟨plan, d, strokes, hdrawn, htotal, -, -, -, hcut, hwhole, hsize, hleft, -⟩ :=
    exact_budget { minLength := 1 } (.ofPixel 64) [[⟨0, 0⟩, ⟨5, 5⟩], [⟨0, 0⟩]]
      [[⟨0, 0⟩, ⟨5, 5⟩], [⟨0, 0⟩]] (List.Perm.refl _)
      (fun a b => (a.x.toInt - b.x.toInt).natAbs + (a.y.toInt - b.y.toInt).natAbs)
      (fun a b => by positivity) (1 / 2) (by decide +kernel) (1 / 2)
      (.holding #[⟨9, 9, 9⟩] 10) (by decide) [0, 64, 0, 5, 64] (by decide +kernel)
      (by decide +kernel)
  exact ⟨plan, d, hdrawn, htotal.trans (by decide +kernel), hcut, hwhole, hsize, hleft,
    by decide +kernel⟩

end VectorDisplay
