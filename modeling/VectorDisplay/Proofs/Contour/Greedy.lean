import Mathlib.Data.List.FinRange
import Mathlib.Algebra.Order.Monoid.WithTop
import VectorDisplay.Platform
import VectorDisplay.Proofs.Drawing.Demand
/-!
What a greedy tour is. Each scan finds the first of the nearest contours, and taking that one away keeps
the others in their order, so a tie always falls to the contour that is listed first. Main statement:
among contours within reach, the tour lists each position once, and each position comes before all
later ones as seen from where the beam then is.
-/

set_option autoImplicit false

namespace VectorDisplay

open Double

namespace Double

variable {x y : Float} {a b : WithTop ℚ}

/-- What a number stands for, if infinity is one of the things it may stand for. -/
inductive Reads (x : Float) : WithTop ℚ → Prop where
  | finite {q : ℚ} (h : HasValue x q) : Reads x q
  | infinite (h : IsInfinite x) : Reads x ⊤

theorem Reads.lt_iff (hx : Reads x a) (hy : Reads y b) : x < y ↔ a < b := by
  cases hx with
  | finite hx =>
    cases hy with
    | finite hy => rw [hx.lt_iff hy, WithTop.coe_lt_coe]
    | infinite hy => exact iff_of_true (hx.lt_infinite hy) (WithTop.coe_lt_top _)
  | infinite hx =>
    cases hy with
    | finite hy => exact iff_of_false (hx.not_lt hy) not_top_lt
    | infinite hy => exact iff_of_false (hx.not_lt_infinite hy) not_top_lt

end Double

namespace Contour

variable {here : Point} {c : Contour} {contours : List Contour}

section Scan

theorem isInfinite_unreachable : IsInfinite unreachable := rfl

variable [Hypot]

/-- How far from a point a contour starts. One without a start is infinitely far. -/
def gap (here : Point) (c : Contour) : WithTop ℚ :=
  match c.head?, approach here c with
  | some _, .ok d => value d
  | _, _ => ⊤

theorem gap_nil (here : Point) : gap here [] = ⊤ := rfl

theorem gap_eq_value {first : Point} {d : Float} (hhead : c.head? = some first)
    (hd : here.distance first = .ok d) : gap here c = value d := by
  simp [gap, approach, hhead, hd]

variable [Hypot.Accurate]

theorem reads_approach {d : Float} (h : approach here c = .ok d) : Reads d (gap here c) := by
  cases hhead : c.head? with
  | none =>
    rw [List.head?_eq_none_iff] at hhead
    subst hhead
    cases h
    exact .infinite isInfinite_unreachable
  | some first =>
    simp only [approach, hhead] at h
    obtain ⟨q, hq, -⟩ := Point.hasValue_distance h
    rw [gap_eq_value hhead h, hq.value_eq]
    exact .finite hq

/-- Where a scan ends: it keeps the best contour so far, or comes upon one that is nearer than that,
nearer than all before it and no farther than any after it. -/
theorem nearestFrom_cases (i best : ℕ) {bestDistance : Float} {a : WithTop ℚ}
    (hreach : AllReached here contours) (hbest : Reads bestDistance a) :
    ∃ k, nearestFrom here contours i best bestDistance = .ok k ∧
      ((k = best ∧ ∀ e ∈ contours, a ≤ gap here e) ∨
        ∃ before c after, contours = before ++ c :: after ∧ k = i + before.length ∧ gap here c < a ∧
          (∀ e ∈ before, gap here c < gap here e) ∧ ∀ e ∈ after, gap here c ≤ gap here e) := by
  induction contours generalizing i best bestDistance a with
  | nil => exact ⟨best, rfl, .inl ⟨rfl, by simp⟩⟩
  | cons c rest ih =>
    obtain ⟨d, hd⟩ := exists_approach (hreach c List.mem_cons_self)
    have hreads := reads_approach hd
    have hrest : AllReached here rest := hreach.of_mem fun e he => List.mem_cons_of_mem _ he
    simp only [nearestFrom, hd, hreads.lt_iff hbest]
    split
    · next hnearer =>
      obtain ⟨k, hk, ⟨rfl, hall⟩ | ⟨before, e, after, rfl, rfl, hlt, hbefore, hafter⟩⟩ :=
        ih (i + 1) i hrest hreads
      · exact ⟨k, hk, .inr ⟨[], c, rest, rfl, rfl, hnearer, by simp, hall⟩⟩
      · refine ⟨_, hk, .inr ⟨c :: before, e, after, rfl, ?_, hlt.trans hnearer, ?_, hafter⟩⟩
        · rw [List.length_cons]
          omega
        · exact List.forall_mem_cons.2 ⟨hlt, hbefore⟩
    · next hfarther =>
      rw [not_lt] at hfarther
      obtain ⟨k, hk, ⟨rfl, hall⟩ | ⟨before, e, after, rfl, rfl, hlt, hbefore, hafter⟩⟩ :=
        ih (i + 1) best hrest hbest
      · exact ⟨k, hk, .inl ⟨rfl, List.forall_mem_cons.2 ⟨hfarther, hall⟩⟩⟩
      · refine ⟨_, hk, .inr ⟨c :: before, e, after, rfl, ?_, hlt, ?_, hafter⟩⟩
        · rw [List.length_cons]
          omega
        · exact List.forall_mem_cons.2 ⟨hlt.trans_le hfarther, hbefore⟩

theorem exists_nearest (hne : contours ≠ []) (hreach : AllReached here contours) :
    ∃ before c after, contours = before ++ c :: after ∧
      nearest here contours = .ok before.length ∧
      (∀ e ∈ before, gap here c < gap here e) ∧ ∀ e ∈ after, gap here c ≤ gap here e := by
  obtain ⟨k, hk, ⟨rfl, hall⟩ | ⟨before, c, after, rfl, rfl, -, hbefore, hafter⟩⟩ :=
    nearestFrom_cases 0 0 hreach (.infinite isInfinite_unreachable)
  · obtain ⟨c, rest, rfl⟩ := List.exists_cons_of_ne_nil hne
    refine ⟨[], c, rest, rfl, hk, by simp, fun e he => ?_⟩
    exact le_top.trans (hall e (List.mem_cons_of_mem _ he))
  · rw [Nat.zero_add] at hk
    exact ⟨before, c, after, rfl, hk, hbefore, hafter⟩

end Scan

section Order

/-- Where the beam is after some contours: at the last point of the last that has one. -/
def beam (here : Point) (visited : List Contour) : Point := visited.flatten.getLast?.getD here

theorem beam_cons (here : Point) (c : Contour) (visited : List Contour) :
    beam here (c :: visited) = beam (leave here c) visited := by
  unfold beam leave
  rw [List.flatten_cons, List.getLast?_append, Option.getD_or]

variable [Hypot]

/-- From a point, position `i` of the list is to be taken before position `j`: it starts nearer, or as
near and is listed earlier. A contour without points comes after all that have some. -/
structure Before (here : Point) (contours : List Contour) (i j : Fin contours.length) : Prop where
  nearer : ∀ a b, (contours.get i).head? = some a → (contours.get j).head? = some b →
    ∃ d e, here.distance a = .ok d ∧ here.distance b = .ok e ∧ d ≤ e ∧ (e ≤ d → i < j)
  empty_last : contours.get i = [] → contours.get j = [] ∧ i < j

/-- In this order every position comes before all later ones, as seen from where the beam then is. -/
def Greedy (here : Point) (contours : List Contour) (order : List (Fin contours.length)) : Prop :=
  ∀ visited i left, order = visited ++ i :: left →
    ∀ j ∈ left, Before (beam here (visited.map contours.get)) contours i j

variable {i j : Fin contours.length} {order rest : List (Fin contours.length)}

theorem Greedy.nil : Greedy here contours [] := by
  intro visited i left h
  simp at h

theorem Greedy.cons (hfirst : ∀ j ∈ rest, Before here contours i j)
    (hrest : Greedy (leave here (contours.get i)) contours rest) :
    Greedy here contours (i :: rest) := by
  intro visited k left h
  cases visited with
  | nil =>
    cases h
    exact hfirst
  | cons v visited =>
    cases h
    rw [List.map_cons, beam_cons]
    exact hrest visited k left rfl

theorem Greedy.head (h : Greedy here contours (i :: rest)) : ∀ j ∈ rest, Before here contours i j :=
  h [] i rest rfl

theorem Greedy.tail (h : Greedy here contours (i :: rest)) :
    Greedy (leave here (contours.get i)) contours rest := by
  intro visited k left hrest
  rw [← beam_cons, ← List.map_cons]
  exact h (i :: visited) k left (by rw [hrest, List.cons_append])

theorem before_of_gap [Hypot.Accurate] (hreach : AllReached here contours)
    (hle : gap here (contours.get i) ≤ gap here (contours.get j))
    (htie : gap here (contours.get j) ≤ gap here (contours.get i) → i < j) :
    Before here contours i j where
  nearer := by
    intro a b ha hb
    obtain ⟨d, hd⟩ := (hreach _ (List.get_mem contours i) a ha).exists_distance
    obtain ⟨e, he⟩ := (hreach _ (List.get_mem contours j) b hb).exists_distance
    obtain ⟨q, hq, -⟩ := Point.hasValue_distance hd
    obtain ⟨r, hr, -⟩ := Point.hasValue_distance he
    rw [gap_eq_value ha hd, gap_eq_value hb he, hq.value_eq, hr.value_eq, WithTop.coe_le_coe]
      at hle htie
    exact ⟨d, e, hd, he, (hq.le_iff hr).2 hle, fun h => htie ((hr.le_iff hq).1 h)⟩
  empty_last := by
    intro hempty
    rw [hempty, gap_nil] at hle htie
    refine ⟨?_, htie le_top⟩
    cases hhead : (contours.get j).head? with
    | none => exact List.head?_eq_none_iff.1 hhead
    | some b =>
      obtain ⟨e, he⟩ := (hreach _ (List.get_mem contours j) b hhead).exists_distance
      rw [gap_eq_value hhead he] at hle
      exact absurd hle (not_le_of_gt (WithTop.coe_lt_top _))

end Order

section Touring

variable [Hypot] {i : Fin contours.length}

/-- The next contour of a tour, among positions that are left in ascending order, comes before all of
the others: those listed earlier start farther away, and those listed later no nearer. -/
theorem exists_nearest_position [Hypot.Accurate] (hreach : AllReached here contours)
    {remaining : List (Fin contours.length)} (hne : remaining ≠ [])
    (hsorted : remaining.Pairwise (· < ·)) :
    ∃ before i after, remaining = before ++ i :: after ∧
      nearest here (remaining.map contours.get) = .ok before.length ∧
      ∀ j ∈ before ++ after, Before here contours i j := by
  have hsub : ∀ c ∈ remaining.map contours.get, c ∈ contours := by
    intro c hc
    obtain ⟨i, -, rfl⟩ := List.mem_map.1 hc
    exact List.get_mem contours i
  obtain ⟨_, _, _, hsplit, hnearest, hbefore, hafter⟩ :=
    exists_nearest (mt List.map_eq_nil_iff.1 hne) (hreach.of_mem hsub)
  obtain ⟨before, others, rfl, rfl, hothers⟩ := List.map_eq_append_iff.1 hsplit
  obtain ⟨i, after, rfl, rfl, rfl⟩ := List.map_eq_cons_iff.1 hothers
  obtain ⟨-, hlater, -⟩ := List.pairwise_append.1 hsorted
  obtain ⟨hlater, -⟩ := List.pairwise_cons.1 hlater
  rw [List.length_map] at hnearest
  refine ⟨before, i, after, rfl, hnearest, fun j hj => ?_⟩
  rcases List.mem_append.1 hj with hj | hj
  · have hlt := hbefore _ (List.mem_map_of_mem hj)
    exact before_of_gap hreach hlt.le fun hge => absurd hlt (not_lt_of_ge hge)
  · exact before_of_gap hreach (hafter _ (List.mem_map_of_mem hj)) fun _ => hlater j hj

theorem tour_succ_eq_ok {n : ℕ} {before after order : List (Fin contours.length)}
    (hnearest : nearest here ((before ++ i :: after).map contours.get) = .ok before.length)
    (hrest : tour n (leave here (contours.get i)) ((before ++ after).map contours.get) =
      .ok (order.map contours.get)) :
    tour (n + 1) here ((before ++ i :: after).map contours.get) =
      .ok ((i :: order).map contours.get) := by
  have hnext : ((before ++ i :: after).map contours.get)[before.length]? =
      some (contours.get i) := by simp
  have herase : ((before ++ i :: after).map contours.get).eraseIdx before.length =
      (before ++ after).map contours.get := by
    simp [List.eraseIdx_append_of_length_le]
  simp only [tour, hnearest, hnext, herase, hrest, List.map_cons]

theorem Near.exists_greedy [Hypot.Accurate] (h : Near contours) (hhere : here ∈ stops contours)
    {remaining : List (Fin contours.length)} (hsorted : remaining.Pairwise (· < ·)) :
    ∃ order : List (Fin contours.length), order.Perm remaining ∧
      tour remaining.length here (remaining.map contours.get) = .ok (order.map contours.get) ∧
      Greedy here contours order := by
  induction hn : remaining.length generalizing here remaining with
  | zero =>
    rw [List.length_eq_zero_iff] at hn
    subst hn
    exact ⟨[], .nil, rfl, .nil⟩
  | succ n ih =>
    have hne : remaining ≠ [] := List.length_pos_iff.1 (by omega)
    obtain ⟨before, i, after, rfl, hnearest, hfirst⟩ :=
      exists_nearest_position (h.allReached hhere fun c hc => hc) hne hsorted
    -- Whatever is taken away, what is left stays in ascending order.
    have hleft : (before ++ after).Pairwise (· < ·) :=
      hsorted.sublist ((List.sublist_cons_self i after).append_left before)
    have hlength : (before ++ after).length = n := by
      rw [List.length_append] at hn ⊢
      rw [List.length_cons] at hn
      omega
    obtain ⟨order, hperm, htour, hgreedy⟩ :=
      ih (leave_mem_stops hhere (List.get_mem contours i)) hleft hlength
    exact ⟨i :: order, (hperm.cons i).trans List.perm_middle.symm, tour_succ_eq_ok hnearest htour,
      .cons (fun j hj => hfirst j (hperm.mem_iff.1 hj)) hgreedy⟩

end Touring

end Contour

/-- Tracing order is left as it is. Among contours within reach, the nearest order lists every position
once, and takes each from where the beam then is before all that are left. -/
theorem DrawingOrder.nearest_arranges [Hypot] [Hypot.Accurate] (contours : List Contour) :
    traced.arrange contours = .ok contours ∧
      (Contour.Near contours → ∃ order : List (Fin contours.length),
        order.Perm (List.finRange contours.length) ∧
        nearest.arrange contours = .ok (order.map contours.get) ∧
        Contour.Greedy Point.origin contours order) := by
  refine ⟨rfl, fun hnear => ?_⟩
  obtain ⟨order, hperm, htour, hgreedy⟩ :=
    hnear.exists_greedy List.mem_cons_self (List.pairwise_lt_finRange contours.length)
  rw [List.map_get_finRange, List.length_finRange] at htour
  exact ⟨order, hperm, htour, hgreedy⟩

def Contour.tied : List Contour :=
  [[], [⟨4, 3⟩, ⟨0, 0⟩], [⟨3, 4⟩], [⟨3, 4⟩], []]

open scoped Platform in
theorem DrawingOrder.nearest_arranges_tied :
    Contour.Near Contour.tied ∧
      nearest.arrange Contour.tied = .ok [[⟨4, 3⟩, ⟨0, 0⟩], [⟨3, 4⟩], [⟨3, 4⟩], [], []] ∧
      ∃ order : List (Fin Contour.tied.length),
        order.Perm (List.finRange Contour.tied.length) ∧
        nearest.arrange Contour.tied = .ok (order.map Contour.tied.get) ∧
        Contour.Greedy Point.origin Contour.tied order := by
  have hnear : Contour.Near Contour.tied := Contour.near_of_natural (by decide)
  exact ⟨hnear, by decide +kernel, (nearest_arranges Contour.tied).2 hnear⟩

end VectorDisplay
