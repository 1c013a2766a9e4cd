import Mathlib.Analysis.Complex.Norm
import VectorDisplay.Platform
import VectorDisplay.Proofs.Contour.Greedy
import VectorDisplay.Proofs.Contour.Route
import VectorDisplay.Proofs.Drawing.Exact
/-!
How long greedy tours are. The travel of a plan is added up exactly, with each distance what its double
stands for; the doubles are close to how far apart the points are in the plane, so what holds of tours
and routes there holds of travel but for the roundings. Main statement: the nearest order may lengthen
the travel, but among `n` contours at most by a factor that grows as the logarithm of `n`, if the way
back from the end of each contour to its start is counted as well.
-/

set_option autoImplicit false

namespace VectorDisplay

open Double

namespace Point

def spot (p : Point) : ℂ := ⟨p.x.toInt, p.y.toInt⟩

/-- What the roundings on its way leave of a distance at least. -/
def precision : ℚ := (1 - ulp) ^ 3

theorem precision_pos : 0 < precision := pow_pos one_sub_ulp_pos 3

theorem sq_dist_spot (a b : Point) : dist a.spot b.spot ^ 2 = (a.squares b : ℝ) := by
  rw [Complex.dist_eq_re_im, Real.sq_sqrt (by positivity)]
  simp [spot, squares]

variable [Hypot] {a b : Point} {d : Float}

/-- The distance as the fraction that its double stands for. -/
def measured (a b : Point) : Checked ℚ := (a.distance b).map value

def apart (a b : Point) : ℚ := (a.measured b).toOption.getD 0

theorem apart_eq_value (h : a.distance b = .ok d) : a.apart b = value d := by
  simp [apart, measured, h, Except.map, Except.toOption]

theorem Reaches.measured_eq_ok (h : a.Reaches b) : a.measured b = .ok (a.apart b) := by
  obtain ⟨d, hd⟩ := h.exists_distance
  rw [apart_eq_value hd, measured, hd]
  rfl

theorem Reaches.apart_near [Hypot.Accurate] (h : a.Reaches b) :
    dist a.spot b.spot * precision ≤ a.apart b ∧ a.apart b * precision ≤ dist a.spot b.spot := by
  obtain ⟨d, hd⟩ := h.exists_distance
  obtain ⟨q, hq, -⟩ := hasValue_distance hd
  obtain ⟨hlow, hhigh⟩ := sq_distance_near hd
  have hnonneg : (0 : ℝ) ≤ a.apart b := by
    rw [apart_eq_value hd, hq.value_eq]
    exact_mod_cast hq.nonneg
  have hsplit : (1 - ulp) ^ 6 = precision ^ 2 := by
    rw [precision, ← pow_mul]
  rw [← apart_eq_value hd, hsplit] at hlow hhigh
  constructor
  · refine le_of_sq_le_sq ?_ hnonneg
    rw [mul_pow, sq_dist_spot]
    exact_mod_cast hlow
  · refine le_of_sq_le_sq ?_ dist_nonneg
    rw [mul_pow, sq_dist_spot]
    exact_mod_cast hhigh

end Point

namespace Contour

variable {c d : Contour} {contours : List Contour}

def start (c : Contour) : Point := c.head?.getD Point.origin

def finish (c : Contour) : Point := c.leave Point.origin

section Ends

theorem head?_eq_start (hc : c ≠ []) : c.head? = some c.start := by
  obtain ⟨p, rest, rfl⟩ := List.exists_cons_of_ne_nil hc
  rfl

theorem leave_eq_finish (hc : c ≠ []) (here : Point) : c.leave here = c.finish := by
  simp [finish, leave, List.getLast?_eq_some_getLast hc]

theorem Near.reaches {here : Point} (h : Near contours) (hhere : here ∈ stops contours)
    (hd : d ∈ contours) (hne : d ≠ []) : here.Reaches d.start :=
  h here hhere d.start (List.mem_filterMap.2 ⟨d, hd, head?_eq_start hne⟩)

theorem finish_mem_stops (hc : c ∈ [Point.origin] :: contours) : c.finish ∈ stops contours := by
  rcases List.mem_cons.1 hc with rfl | hc
  · exact List.mem_cons_self
  · exact leave_mem_stops List.mem_cons_self hc

end Ends

section Departures

variable [Hypot]

/-- From the end of a contour to the start of another. -/
def hop (c d : Contour) : ℚ := c.finish.apart d.start

def span (c : Contour) : ℚ := c.hop c

/-- The travel that a plan charges for contours in this order, at one a pixel. -/
def travel (contours : List Contour) : Checked ℚ :=
  (Plan.legsFrom Point.measured 1 Point.origin contours).map fun legs => (legs.map Leg.travel).sum

def departures (c : Contour) : List Contour → List (Contour × ℚ)
  | [] => [(c, 0)]
  | d :: rest => (c, c.hop d) :: departures d rest

theorem map_fst_departures (c : Contour) (contours : List Contour) :
    (departures c contours).map Prod.fst = c :: contours := by
  induction contours generalizing c with
  | nil => rfl
  | cons d rest ih => rw [departures, List.map_cons, ih]

theorem exists_last_departure (c : Contour) (contours : List Contour) :
    ∃ before z, departures c contours = before ++ [z] ∧ z.2 = 0 := by
  induction contours generalizing c with
  | nil => exact ⟨[], (c, 0), rfl, rfl⟩
  | cons d rest ih =>
    obtain ⟨before, z, hsplit, hz⟩ := ih d
    exact ⟨(c, c.hop d) :: before, z, by rw [departures, hsplit, List.cons_append], hz⟩

theorem exists_legsFrom_hops (hpoints : ∀ d ∈ contours, d ≠ [])
    (hroute : Routed c.finish contours) :
    ∃ legs, Plan.legsFrom Point.measured 1 c.finish contours = .ok legs ∧
      (legs.map Leg.travel).sum = ((departures c contours).map Prod.snd).sum := by
  induction contours generalizing c with
  | nil => exact ⟨[], rfl, by simp [departures]⟩
  | cons d rest ih =>
    obtain ⟨hne, hothers⟩ := List.forall_mem_cons.1 hpoints
    obtain ⟨hreach, hrest⟩ := hroute
    have hhead := head?_eq_start hne
    rw [leave_eq_finish hne] at hrest
    obtain ⟨legs, hlegs, hsum⟩ := ih hothers hrest
    have hmeasured := (hreach d.start hhead).measured_eq_ok
    have hpositive : Amount.positive (1 : ℚ) = true := rfl
    refine ⟨⟨d, c.hop d⟩ :: legs, ?_, by simp [departures, hsum]⟩
    simp only [Plan.legsFrom, hhead, hpositive, if_true, hmeasured, leave_eq_finish hne, hlegs]
    simp [Amount.mul, hop]

theorem travel_eq_ok (hpoints : ∀ d ∈ contours, d ≠ []) (hroute : Routed Point.origin contours) :
    travel contours = .ok ((departures [Point.origin] contours).map Prod.snd).sum := by
  obtain ⟨legs, hlegs, hsum⟩ := exists_legsFrom_hops (c := [Point.origin]) hpoints hroute
  have horigin : finish [Point.origin] = Point.origin := rfl
  rw [horigin] at hlegs
  rw [travel, hlegs, ← hsum]
  rfl

theorem Before.hop_le [Hypot.Accurate] {i j : Fin contours.length}
    (h : Before c.finish contours i j) (hi : contours.get i ≠ []) (hj : contours.get j ≠ []) :
    c.hop (contours.get i) ≤ c.hop (contours.get j) := by
  obtain ⟨d, e, hd, he, hle, -⟩ := h.nearer _ _ (head?_eq_start hi) (head?_eq_start hj)
  obtain ⟨q, hq, -⟩ := Point.hasValue_distance hd
  obtain ⟨r, hr, -⟩ := Point.hasValue_distance he
  rw [hop, hop, Point.apart_eq_value hd, Point.apart_eq_value he, hq.value_eq, hr.value_eq]
  exact (hq.le_iff hr).1 hle

end Departures

section Lengths

/-- A contour and how the beam leaves it, as a stop in the plane. What roundings may have added to the
step is taken off. -/
noncomputable def toStop (x : Contour × ℚ) : Stop ℂ :=
  ⟨x.1.start.spot, x.1.finish.spot, x.2 * Point.precision⟩

theorem sum_step_toStop (l : List (Contour × ℚ)) :
    ((l.map toStop).map Stop.step).sum = ((l.map Prod.snd).sum : ℚ) * Point.precision := by
  rw [Rat.cast_list_sum, List.map_map, List.map_map, ← List.sum_map_mul_right]
  rfl

theorem route_le [Hypot] [Hypot.Accurate] {l : List (Contour × ℚ)} (hpoints : ∀ x ∈ l, x.1 ≠ [])
    (hroute : Routed c.finish (l.map Prod.fst)) (hspan : ∀ x ∈ l, x.1.finish.Reaches x.1.start) :
    Stop.route c.finish.spot (l.map toStop) * Point.precision ≤
      (((departures c (l.map Prod.fst)).map Prod.snd).sum +
        ((l.map Prod.fst).map span).sum : ℚ) := by
  induction l generalizing c with
  | nil => simp [Stop.route, departures]
  | cons x rest ih =>
    obtain ⟨hne, hpoints'⟩ := List.forall_mem_cons.1 hpoints
    obtain ⟨hback, hspan'⟩ := List.forall_mem_cons.1 hspan
    obtain ⟨hreach, hroute'⟩ := hroute
    rw [leave_eq_finish hne] at hroute'
    have hrest := ih hpoints' hroute' hspan'
    have hthere := (hreach _ (head?_eq_start hne)).apart_near.1
    have hthrough := hback.apart_near.1
    rw [dist_comm] at hthrough
    simp only [List.map_cons, Stop.route, departures, List.sum_cons, span, hop, toStop] at hrest ⊢
    push_cast at hrest ⊢
    linarith

theorem prefers_toStop [Hypot] [Hypot.Accurate] {x y : Contour × ℚ} (hle : x.2 ≤ x.1.hop y.1)
    (hreach : x.1.finish.Reaches y.1.start) : (toStop x).Prefers (toStop y) := by
  have hnear := hreach.apart_near.2
  have hprecision : (0 : ℝ) ≤ Point.precision := by exact_mod_cast Point.precision_pos.le
  calc (x.2 * Point.precision : ℝ) ≤ x.1.hop y.1 * Point.precision :=
        mul_le_mul_of_nonneg_right (by exact_mod_cast hle) hprecision
    _ ≤ dist x.1.finish.spot y.1.start.spot := hnear

/-- What three roundings take off, twice, is made up for by a part in `2 ^ 49`. -/
theorem le_of_precision {toured way long factor : ℝ} (hfactor : 0 ≤ factor) (hway : 0 ≤ way)
    (htour : toured * Point.precision ≤ factor * way) (hlong : way * Point.precision ≤ long) :
    toured ≤ factor * (1 + 1 / 2 ^ 49) * long := by
  have hprecision : (0 : ℝ) < Point.precision := by exact_mod_cast Point.precision_pos
  have hpart : (1 : ℝ) ≤ (1 + 1 / 2 ^ 49) * (Point.precision * Point.precision) := by
    norm_num [Point.precision, ulp]
  have hnonneg : 0 ≤ long := (mul_nonneg hway hprecision.le).trans hlong
  refine le_of_mul_le_mul_right ?_ (mul_pos hprecision hprecision)
  calc toured * (Point.precision * Point.precision)
      = toured * Point.precision * Point.precision := (mul_assoc _ _ _).symm
    _ ≤ factor * way * Point.precision := mul_le_mul_of_nonneg_right htour hprecision.le
    _ = factor * (way * Point.precision) := mul_assoc _ _ _
    _ ≤ factor * long := mul_le_mul_of_nonneg_left hlong hfactor
    _ ≤ factor * long * ((1 + 1 / 2 ^ 49) * (Point.precision * Point.precision)) :=
        le_mul_of_one_le_right (mul_nonneg hfactor hnonneg) hpart
    _ = factor * (1 + 1 / 2 ^ 49) * long * (Point.precision * Point.precision) := by ring

end Lengths

section Comparing

variable {other : List Contour}

theorem exists_departures_perm {l : List (Contour × ℚ)} (h : other.Perm (l.map Prod.fst)) :
    ∃ l' : List (Contour × ℚ), l'.Perm l ∧ l'.map Prod.fst = other := by
  have hcomp := List.eq_map_comp_perm (Prod.fst : Contour × ℚ → Contour)
  obtain ⟨l', hmap, hperm⟩ := (congrFun (congrFun hcomp other) l).mpr h
  exact ⟨l', hperm, hmap.symm⟩

variable [Hypot] [Hypot.Accurate] {order : List (Fin contours.length)}

/-- A greedy tour leaves every contour by a hop that is no longer than the way to any later one. -/
theorem Greedy.pairwise_toStop (hpoints : ∀ d ∈ contours, d ≠ []) (hnear : Near contours)
    (hc : c ∈ [Point.origin] :: contours) (h : Greedy c.finish contours order) :
    ((departures c (order.map contours.get)).map toStop).Pairwise Stop.Prefers := by
  have hget (i : Fin contours.length) : contours.get i ≠ [] := hpoints _ (List.get_mem contours i)
  induction order generalizing c with
  | nil => exact List.pairwise_singleton _ _
  | cons i rest ih =>
    have htail := h.tail
    rw [leave_eq_finish (hget i)] at htail
    refine List.pairwise_cons.2 ⟨fun s hs => ?_,
      ih (List.mem_cons_of_mem _ (List.get_mem contours i)) htail⟩
    obtain ⟨y, hy, rfl⟩ := List.mem_map.1 hs
    have hmem := List.mem_map_of_mem (f := Prod.fst) hy
    rw [map_fst_departures, ← List.map_cons] at hmem
    obtain ⟨j, hj, hyj⟩ := List.mem_map.1 hmem
    have hle : c.hop (contours.get i) ≤ c.hop y.1 := by
      rw [← hyj]
      rcases List.mem_cons.1 hj with rfl | hlater
      · exact le_rfl
      · exact (h.head j hlater).hop_le (hget i) (hget j)
    refine prefers_toStop hle ?_
    rw [← hyj]
    exact hnear.reaches (finish_mem_stops hc) (List.get_mem contours j) (hget j)

theorem Greedy.exists_route (hpoints : ∀ d ∈ contours, d ≠ []) (hnear : Near contours)
    (h : Greedy Point.origin contours order) (hperm : order.Perm (List.finRange contours.length))
    (hother : other.Perm contours) :
    ∃ l : List (Contour × ℚ), l.map Prod.fst = other ∧
      (((departures [Point.origin] (order.map contours.get)).map Prod.snd).sum : ℚ) *
          Point.precision ≤
        (Nat.clog 2 contours.length + 1) * Stop.route Point.origin.spot (l.map toStop) := by
  have harranged : (order.map contours.get).Perm contours := by
    simpa using hperm.map contours.get
  obtain ⟨before, z, hsplit, hz⟩ :=
    exists_last_departure [Point.origin] (order.map contours.get)
  have hfst := map_fst_departures [Point.origin] (order.map contours.get)
  have hlength : before.length = contours.length := by
    have := congrArg List.length hfst
    rw [hsplit] at this
    simpa [harranged.length_eq] using this
  have hall : ([Point.origin] :: other).Perm ((before ++ [z]).map Prod.fst) := by
    rw [← hsplit, hfst]
    exact (hother.trans harranged.symm).cons _
  obtain ⟨l', hl', hmap⟩ := exists_departures_perm hall
  obtain ⟨x, l, rfl, hx, hl⟩ := List.map_eq_cons_iff.1 hmap
  have htour := h.pairwise_toStop hpoints hnear List.mem_cons_self
  rw [hsplit, List.map_append] at htour
  have hbound := Stop.sum_step_le_route htour ((hl'.map toStop).trans (by simp)) Point.origin.spot
  rw [sum_step_toStop, List.length_map, hlength] at hbound
  refine ⟨l, hl, ?_⟩
  have hstart : Stop.route Point.origin.spot ((x :: l).map toStop) =
      Stop.route Point.origin.spot (l.map toStop) := by
    simp [Stop.route, toStop, hx, start, finish, leave]
  rw [← hstart, hsplit, List.map_append, List.sum_append]
  simpa [hz] using hbound

theorem Greedy.sum_departures_le (hpoints : ∀ d ∈ contours, d ≠ []) (hnear : Near contours)
    (h : Greedy Point.origin contours order) (hperm : order.Perm (List.finRange contours.length))
    (hother : other.Perm contours) :
    ((departures [Point.origin] (order.map contours.get)).map Prod.snd).sum ≤
      (Nat.clog 2 contours.length + 1) * (1 + 1 / 2 ^ 49) *
        (((departures [Point.origin] other).map Prod.snd).sum + (contours.map span).sum) := by
  obtain ⟨l, rfl, htour⟩ := h.exists_route hpoints hnear hperm hother
  have hmem : ∀ x ∈ l, x.1 ∈ contours := fun x hx => hother.mem_iff.1 (List.mem_map_of_mem hx)
  have hroute := route_le (c := [Point.origin]) (fun x hx => hpoints _ (hmem x hx))
    (hnear.routed List.mem_cons_self fun d hd => hother.mem_iff.1 hd) fun x hx =>
      hnear.reaches (finish_mem_stops (List.mem_cons_of_mem _ (hmem x hx))) (hmem x hx)
        (hpoints _ (hmem x hx))
  rw [(hother.map span).sum_eq] at hroute
  have hreal := le_of_precision (by positivity) (Stop.route_nonneg _ _) htour hroute
  rw [← Rat.cast_le (K := ℝ)]
  push_cast at hreal ⊢
  exact hreal

end Comparing

def strayed : List Contour := [[⟨2, 0⟩, ⟨1, 0⟩], [⟨1, 0⟩, ⟨10, 0⟩]]

end Contour

namespace DrawingOrder

/-- Among contours within reach, the travel in the nearest order is at most by a logarithmic factor
longer than in any other order, tracing order among them, if the spans of the contours are counted
there as well. -/
theorem travel_nearest_le [Hypot] [Hypot.Accurate] (contours other : List Contour)
    (hpoints : ∀ c ∈ contours, c ≠ []) (hnear : Contour.Near contours)
    (hother : other.Perm contours) :
    ∃ arranged toured long, nearest.arrange contours = .ok arranged ∧
      Contour.travel arranged = .ok toured ∧ Contour.travel other = .ok long ∧
      toured ≤ (Nat.clog 2 contours.length + 1) * (1 + 1 / 2 ^ 49) *
        (long + (contours.map Contour.span).sum) := by
  obtain ⟨order, hperm, htour, hgreedy⟩ :=
    hnear.exists_greedy List.mem_cons_self (List.pairwise_lt_finRange contours.length)
  rw [List.map_get_finRange, List.length_finRange] at htour
  have harranged := perm_of_arrange (o := nearest) htour
  have htravel {l : List Contour} (hl : l.Perm contours) :=
    Contour.travel_eq_ok (fun c hc => hpoints c (hl.mem_iff.1 hc))
      (hnear.routed List.mem_cons_self fun c hc => hl.mem_iff.1 hc)
  exact ⟨_, _, _, htour, htravel harranged, htravel hother,
    hgreedy.sum_departures_le hpoints hnear hperm hother⟩

open scoped Platform in
theorem travel_nearest_le_strayed :
    (∀ c ∈ Contour.strayed, c ≠ []) ∧ Contour.Near Contour.strayed ∧
      (Contour.strayed.map Contour.span).sum = 10 ∧
      ∃ arranged toured long, nearest.arrange Contour.strayed = .ok arranged ∧
        Contour.travel arranged = .ok toured ∧ Contour.travel Contour.strayed = .ok long ∧
        toured ≤ (Nat.clog 2 Contour.strayed.length + 1) * (1 + 1 / 2 ^ 49) *
          (long + (Contour.strayed.map Contour.span).sum) := by
  have hpoints : ∀ c ∈ Contour.strayed, c ≠ [] := by decide
  have hnear : Contour.Near Contour.strayed := Contour.near_of_natural (by decide)
  exact ⟨hpoints, hnear, by decide +kernel,
    travel_nearest_le _ _ hpoints hnear (List.Perm.refl _)⟩

open scoped Platform in
/-- The nearest order may lengthen the travel: here it takes the contour that leads away first. -/
theorem travel_nearest_strayed :
    (∀ c ∈ Contour.strayed, c ≠ []) ∧ Contour.Near Contour.strayed ∧
      traced.arrange Contour.strayed = .ok Contour.strayed ∧
      Contour.travel Contour.strayed = .ok 2 ∧
      nearest.arrange Contour.strayed = .ok Contour.strayed.reverse ∧
      Contour.travel Contour.strayed.reverse = .ok 9 :=
  ⟨by decide, Contour.near_of_natural (by decide), rfl, by decide +kernel, by decide +kernel,
    by decide +kernel⟩

end DrawingOrder

end VectorDisplay
