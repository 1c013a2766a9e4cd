import Mathlib.Algebra.Order.BigOperators.Group.List
import Mathlib.Data.Nat.Log
import Mathlib.Tactic.Linarith
import Mathlib.Topology.MetricSpace.Pseudo.Defs
/-!
Tours and routes. A tour and a route make the same stops in different orders; a stop is entered at its
first point and left at its last. If the tour always goes to a nearest stop, then of any two stops one
is left by a step that is no longer than the way from one to the other. So stops that follow each other
on the route are paired, and the shorter steps of all pairs together are no longer than the route. The
longer ones go on to the next round. Main statement: a tour is no longer than as many routes as there
are rounds, and one more.
-/

set_option autoImplicit false

namespace VectorDisplay

/-- A stop, with the length of the step by which a tour leaves it. -/
structure Stop (α : Type) where
  first : α
  last : α
  step : ℝ

namespace Stop

variable {α : Type} [PseudoMetricSpace α] {x y z : Stop α} {l l' : List (Stop α)}

/-- The length of a route from a point through stops, the ways through the stops included. -/
def route (here : α) : List (Stop α) → ℝ
  | [] => 0
  | x :: rest => dist here x.first + dist x.first x.last + route x.last rest

section Routes

theorem route_nonneg (here : α) (l : List (Stop α)) : 0 ≤ route here l := by
  induction l generalizing here with
  | nil => exact le_rfl
  | cons x rest ih =>
    have := ih x.last
    unfold route
    positivity

theorem route_le_dist_add (here there : α) (l : List (Stop α)) :
    route here l ≤ dist here there + route there l := by
  cases l with
  | nil => simp [route]
  | cons x rest =>
    have := dist_triangle here there x.first
    simp only [route]
    linarith

theorem route_le_of_sublist (h : l'.Sublist l) (here : α) : route here l' ≤ route here l := by
  induction h generalizing here with
  | slnil => exact le_rfl
  | @cons l' l x h ih =>
    have hskip := route_le_dist_add here x.last l'
    have hrest := ih x.last
    have := dist_triangle here x.first x.last
    simp only [route]
    linarith
  | cons_cons x h ih =>
    have := ih x.last
    simp only [route]
    linarith

theorem dist_first_le_route (here : α) (hz : z ∈ l) : dist here z.first ≤ route here l := by
  have h := route_le_of_sublist (List.singleton_sublist.2 hz) here
  have : 0 ≤ dist z.first z.last := dist_nonneg
  simp only [route] at h
  linarith

theorem dist_last_le_route (here : α) (hx : x ∈ l) : dist here x.last ≤ route here l := by
  have h := route_le_of_sublist (List.singleton_sublist.2 hx) here
  have := dist_triangle here x.first x.last
  simp only [route] at h
  linarith

theorem dist_le_route (here : α) (hx : x ∈ l) (hz : z ∈ l) :
    dist x.last z.first ≤ route here l := by
  induction l generalizing here with
  | nil => cases hx
  | cons y rest ih =>
    have hhere : 0 ≤ dist here y.first := dist_nonneg
    have hthrough : 0 ≤ dist y.first y.last := dist_nonneg
    simp only [route]
    rcases List.mem_cons.1 hx with rfl | hx'
    · rcases List.mem_cons.1 hz with rfl | hz'
      · have := route_nonneg z.last rest
        rw [dist_comm]
        linarith
      · have := dist_first_le_route x.last hz'
        linarith
    · rcases List.mem_cons.1 hz with rfl | hz'
      · have := dist_last_le_route z.last hx'
        have := dist_triangle z.first z.last x.last
        rw [dist_comm x.last]
        linarith
      · have := ih y.last hx' hz'
        linarith

end Routes

section Rounds

/-- The tour leaves a stop by a step that is no longer than the way to the other. -/
def Prefers (x y : Stop α) : Prop := x.step ≤ dist x.last y.first

/-- One of two stops is left by a step that is no longer than the way from it to the other. -/
def Rivals (x y : Stop α) : Prop := Prefers x y ∨ Prefers y x

theorem Rivals.symm (h : Rivals x y) : Rivals y x := Or.symm h

theorem Rivals.min_le (h : Rivals x y) :
    min x.step y.step ≤ dist x.first x.last + dist x.last y.first + dist y.first y.last := by
  have hx : 0 ≤ dist x.first x.last := dist_nonneg
  have hy : 0 ≤ dist y.first y.last := dist_nonneg
  unfold Rivals Prefers at h
  rcases h with h | h
  · have := min_le_left x.step y.step
    linarith
  · have := min_le_right x.step y.step
    have := dist_triangle4_right y.last x.first y.first x.last
    have := dist_triangle x.first x.last y.first
    have := dist_triangle x.first y.first y.last
    rw [dist_comm y.last] at h
    linarith

/-- One round: of stops that follow each other, the one with the longer step goes on. -/
noncomputable def winners : List (Stop α) → List (Stop α)
  | x :: y :: rest => (if x.step ≤ y.step then y else x) :: winners rest
  | [x] => [x]
  | [] => []

omit [PseudoMetricSpace α] in
theorem winners_sublist (l : List (Stop α)) : (winners l).Sublist l := by
  fun_induction winners l with
  | case1 x y rest ih =>
    split
    · exact (ih.cons_cons y).cons x
    · exact (ih.cons y).cons_cons x
  | case2 x => exact .refl _
  | case3 => exact .refl _

omit [PseudoMetricSpace α] in
theorem length_winners (l : List (Stop α)) : (winners l).length = (l.length + 1) / 2 := by
  fun_induction winners l with
  | case1 x y rest ih =>
    simp only [List.length_cons, ih]
    omega
  | case2 x => simp
  | case3 => simp

/-- What leaves the tour in a round is no longer than the route. -/
theorem sum_step_le_winners (h : l.Pairwise Rivals) (here : α) :
    (l.map step).sum ≤ ((winners l).map step).sum + route here l := by
  fun_induction winners l generalizing here with
  | case1 x y rest ih =>
    obtain ⟨hx, hrest⟩ := List.pairwise_cons.1 h
    have hmin := (hx y List.mem_cons_self).min_le
    have hothers := ih (List.pairwise_cons.1 hrest).2 y.last
    have hhere : 0 ≤ dist here x.first := dist_nonneg
    have hloser : x.step + y.step = (if x.step ≤ y.step then y else x).step + min x.step y.step := by
      split
      · next hle => rw [min_eq_left hle, add_comm]
      · next hlt => rw [min_eq_right (not_le.1 hlt).le]
    simp only [List.map_cons, List.sum_cons, route]
    linarith
  | case2 x => simpa using route_nonneg here [x]
  | case3 => simpa using route_nonneg here []

/-- After as many rounds as it takes to halve the stops down to one, one step is left. -/
theorem sum_step_le_of_length {k : ℕ} {long : ℝ} (hlength : l.length ≤ 2 ^ k)
    (h : l.Pairwise Rivals) (here : α) (hroute : route here l ≤ long)
    (hstep : ∀ x ∈ l, x.step ≤ long) : (l.map step).sum ≤ (k + 1) * long := by
  induction k generalizing l with
  | zero =>
    have hlong : 0 ≤ long := (route_nonneg here l).trans hroute
    match l, hlength with
    | [], _ => simpa using hlong
    | [x], _ => simpa using hstep x List.mem_cons_self
  | succ k ih =>
    have hround := sum_step_le_winners h here
    have hsub := winners_sublist l
    have hrest := ih (l := winners l) (by rw [length_winners, pow_succ] at *; omega)
      (h.sublist hsub) ((route_le_of_sublist hsub here).trans hroute)
      fun x hx => hstep x (hsub.mem hx)
    push_cast
    linarith

theorem sum_step_le_route {before : List (Stop α)} (h : (before ++ [z]).Pairwise Prefers)
    (hperm : l.Perm (before ++ [z])) (here : α) :
    (before.map step).sum ≤ (Nat.clog 2 before.length + 1) * route here l := by
  obtain ⟨hbefore, -, hlast⟩ := List.pairwise_append.1 h
  have hz : z ∈ l := hperm.mem_iff.2 (List.mem_append_right _ (List.mem_singleton_self z))
  obtain ⟨earlier, later, rfl⟩ := List.append_of_mem hz
  have hothers : (earlier ++ later).Perm before :=
    ((List.perm_middle.symm.trans hperm).trans (List.perm_append_singleton z before)).cons_inv
  have hsub : (earlier ++ later).Sublist (earlier ++ z :: later) :=
    (List.sublist_cons_self z later).append_left earlier
  have hrivals : (earlier ++ later).Pairwise Rivals :=
    (hothers.pairwise_iff Rivals.symm).2 (hbefore.imp Or.inl)
  rw [← (hothers.map step).sum_eq, ← hothers.length_eq]
  refine sum_step_le_of_length (Nat.le_pow_clog one_lt_two _) hrivals here
    (route_le_of_sublist hsub here) fun x hx => ?_
  have hpreferred : Prefers x z :=
    hlast x (hothers.mem_iff.1 hx) z (List.mem_singleton_self z)
  exact hpreferred.trans (dist_le_route here (hsub.mem hx) hz)

end Rounds

end Stop

end VectorDisplay
