import VectorDisplay.Proofs.Contour.Order
import VectorDisplay.Proofs.Drawing.Path
/-!
Travel that can be measured. A distance exists where both coordinate differences are 32-bit words. A
route is measured from each contour to the next, and a greedy tour to every contour that is left, so
it is stated exactly which contours have a plan; those of points that are not left of or above the
origin always do.
-/

set_option autoImplicit false

namespace VectorDisplay

namespace Point

/-- Both coordinate differences are 32-bit words. -/
def Reaches (a b : Point) : Prop :=
  (-2 ^ 31 ≤ a.x.toInt - b.x.toInt ∧ a.x.toInt - b.x.toInt < 2 ^ 31) ∧
    -2 ^ 31 ≤ a.y.toInt - b.y.toInt ∧ a.y.toInt - b.y.toInt < 2 ^ 31

instance (a b : Point) : Decidable (a.Reaches b) :=
  inferInstanceAs (Decidable (_ ∧ _))

theorem signedWord_eq_ok {i : Int} (hlow : -2 ^ 31 ≤ i) (hhigh : i < 2 ^ 31) :
    signedWord i = .ok i := if_pos ⟨hlow, hhigh⟩

theorem signedWord_eq_error {i : Int} (h : ¬ (-2 ^ 31 ≤ i ∧ i < 2 ^ 31)) :
    signedWord i = .error .overflow := if_neg h

variable {a b : Point}

theorem Reaches.exists_distance [Hypot] (h : a.Reaches b) : ∃ d, a.distance b = .ok d := by
  obtain ⟨⟨hxLow, hxHigh⟩, hyLow, hyHigh⟩ := h
  unfold distance
  rw [signedWord_eq_ok hxLow hxHigh, signedWord_eq_ok hyLow hyHigh]
  exact ⟨_, rfl⟩

theorem distance_eq_error [Hypot] (h : ¬ a.Reaches b) : a.distance b = .error .overflow := by
  unfold distance
  by_cases hx : -2 ^ 31 ≤ a.x.toInt - b.x.toInt ∧ a.x.toInt - b.x.toInt < 2 ^ 31
  · rw [signedWord_eq_ok hx.1 hx.2, signedWord_eq_error fun hy => h ⟨hx, hy⟩]
  · rw [signedWord_eq_error hx]

def Natural (p : Point) : Prop := 0 ≤ p.x.toInt ∧ 0 ≤ p.y.toInt

instance (p : Point) : Decidable p.Natural := inferInstanceAs (Decidable (_ ∧ _))

theorem Natural.origin : Point.origin.Natural := ⟨Int.le_refl 0, Int.le_refl 0⟩

theorem Natural.ofNat {x y : Nat} (hx : x < 2 ^ 31) (hy : y < 2 ^ 31) :
    (Point.ofNat x y).Natural := by
  have hxInt : (Int32.ofNat x).toInt = x := Int32.toInt_ofNat_of_lt hx
  have hyInt : (Int32.ofNat y).toInt = y := Int32.toInt_ofNat_of_lt hy
  constructor
  · change 0 ≤ (Int32.ofNat x).toInt
    omega
  · change 0 ≤ (Int32.ofNat y).toInt
    omega

theorem Natural.reaches (ha : a.Natural) (hb : b.Natural) : a.Reaches b := by
  obtain ⟨hax, hay⟩ := ha
  obtain ⟨hbx, hby⟩ := hb
  have haxLt := a.x.toInt_lt
  have hayLt := a.y.toInt_lt
  have hbxLt := b.x.toInt_lt
  have hbyLt := b.y.toInt_lt
  exact ⟨⟨by omega, by omega⟩, by omega, by omega⟩

end Point

namespace Contour

def AllReached (here : Point) (contours : List Contour) : Prop :=
  ∀ c ∈ contours, ∀ first, c.head? = some first → here.Reaches first

def Routed : Point → List Contour → Prop
  | _, [] => True
  | here, c :: rest =>
    (∀ first, c.head? = some first → here.Reaches first) ∧ Routed (c.leave here) rest

def stops (contours : List Contour) : List Point := Point.origin :: contours.filterMap (·.getLast?)

def starts (contours : List Contour) : List Point := contours.filterMap (·.head?)

variable {here : Point} {contours : List Contour}

theorem AllReached.of_mem {others : List Contour} (h : AllReached here contours)
    (hsub : ∀ c ∈ others, c ∈ contours) : AllReached here others :=
  fun c hc => h c (hsub c hc)

theorem eraseIdx_perm_erase {i : Nat} (hi : i < contours.length) :
    (contours.eraseIdx i).Perm (contours.erase contours[i]) := by
  have herase := List.perm_cons_erase (List.getElem_mem hi)
  exact ((List.getElem_cons_eraseIdx_perm hi).trans herase).cons_inv

section Tour

variable [Hypot]

/-- Wherever the first contours of a greedy tour lead, all others start within reach. -/
def Toured (here : Point) (contours : List Contour) : Prop :=
  ∀ n < contours.length, ∀ visited, tour n here contours = .ok visited →
    AllReached (visited.foldl leave here) (contours.diff visited)

theorem exists_approach {c : Contour} (h : ∀ first, c.head? = some first → here.Reaches first) :
    ∃ d, approach here c = .ok d := by
  unfold approach
  cases hhead : c.head? with
  | none => exact ⟨_, rfl⟩
  | some first => exact (h first hhead).exists_distance

theorem approach_eq_error {c : Contour} {first : Point} (hhead : c.head? = some first)
    (h : ¬ here.Reaches first) : approach here c = .error .overflow := by
  unfold approach
  rw [hhead]
  exact Point.distance_eq_error h

theorem exists_nearestFrom (h : AllReached here contours) (i best : Nat) (bestDistance : Float) :
    ∃ k, nearestFrom here contours i best bestDistance = .ok k := by
  induction contours generalizing i best bestDistance with
  | nil => exact ⟨best, rfl⟩
  | cons c rest ih =>
    obtain ⟨d, hd⟩ := exists_approach (h c List.mem_cons_self)
    have hrest : AllReached here rest := h.of_mem fun c hc => List.mem_cons_of_mem _ hc
    simp only [nearestFrom, hd]
    split
    · exact ih hrest _ _ _
    · exact ih hrest _ _ _

theorem nearestFrom_eq_error (h : ¬ AllReached here contours) (i best : Nat)
    (bestDistance : Float) :
    nearestFrom here contours i best bestDistance = .error .overflow := by
  induction contours generalizing i best bestDistance with
  | nil => exact absurd (fun c hc => absurd hc List.not_mem_nil) h
  | cons c rest ih =>
    by_cases hc : ∀ first, c.head? = some first → here.Reaches first
    · obtain ⟨d, hd⟩ := exists_approach hc
      have hrest : ¬ AllReached here rest := fun hrest =>
        h fun e he => (List.mem_cons.1 he).elim (fun heq => heq ▸ hc) (hrest e)
      simp only [nearestFrom, hd]
      split
      · exact ih hrest _ _ _
      · exact ih hrest _ _ _
    · simp only [not_forall] at hc
      obtain ⟨first, hhead, hreach⟩ := hc
      simp only [nearestFrom, approach_eq_error hhead hreach]

theorem exists_tour_succ_iff (hne : contours ≠ []) (h : AllReached here contours) :
    ∃ (i : Nat) (hi : i < contours.length), ∀ n arranged,
      tour (n + 1) here contours = .ok arranged ↔
        ∃ rest, tour n (leave here contours[i]) (contours.eraseIdx i) = .ok rest ∧
          arranged = contours[i] :: rest := by
  obtain ⟨i, hi⟩ := exists_nearestFrom h 0 0 unreachable
  have hnearest : nearest here contours = .ok i := hi
  have hlt := nearest_lt hne hnearest
  refine ⟨i, hlt, fun n arranged => ?_⟩
  rw [tour, hnearest]
  dsimp only
  rw [List.getElem?_eq_getElem hlt]
  dsimp only
  cases tour n (leave here contours[i]) (contours.eraseIdx i) with
  | error fault => simp
  | ok rest => simp [eq_comm]

/-- A tour goes on as long as every contour that is left is within reach. -/
theorem exists_tour_iff {n : Nat} (hn : n ≤ contours.length) :
    (∃ arranged, tour n here contours = .ok arranged) ↔
      ∀ k < n, ∀ visited, tour k here contours = .ok visited →
        AllReached (visited.foldl leave here) (contours.diff visited) := by
  induction n generalizing here contours with
  | zero => exact ⟨fun _ k hk => absurd hk (Nat.not_lt_zero k), fun _ => ⟨[], rfl⟩⟩
  | succ n ih =>
    have hne : contours ≠ [] := List.length_pos_iff.1 (by omega)
    by_cases hreach : AllReached here contours
    · obtain ⟨i, hi, hstep⟩ := exists_tour_succ_iff hne hreach
      have hrest := @ih (leave here contours[i]) (contours.eraseIdx i)
        (by rw [List.length_eraseIdx_of_lt hi]; omega)
      have hleft (visited : List Contour) :
          ((contours.eraseIdx i).diff visited).Perm (contours.diff (contours[i] :: visited)) := by
        rw [List.diff_cons]
        exact (eraseIdx_perm_erase hi).diff_right visited
      constructor
      · rintro ⟨arranged, harranged⟩ k hk visited hvisited
        obtain ⟨rest, hrestTour, -⟩ := (hstep n arranged).1 harranged
        cases k with
        | zero =>
          cases hvisited
          exact hreach
        | succ k =>
          obtain ⟨others, hothers, rfl⟩ := (hstep k visited).1 hvisited
          have := hrest.1 ⟨rest, hrestTour⟩ k (by omega) others hothers
          exact this.of_mem fun c hc => (hleft others).mem_iff.2 hc
      · intro h
        obtain ⟨rest, hrestTour⟩ := hrest.2 fun k hk others hothers =>
          (h (k + 1) (by omega) _ ((hstep k _).2 ⟨others, hothers, rfl⟩)).of_mem
            fun c hc => (hleft others).mem_iff.1 hc
        exact ⟨_, (hstep n _).2 ⟨rest, hrestTour, rfl⟩⟩
    · constructor
      · rintro ⟨arranged, harranged⟩
        rw [tour, nearest, nearestFrom_eq_error hreach] at harranged
        cases harranged
      · intro h
        exact absurd (h 0 (Nat.succ_pos n) [] rfl) hreach

theorem fault_of_tour {n : Nat} {fault : Fault} (h : tour n here contours = .error fault) :
    fault = .overflow := by
  induction n generalizing here contours with
  | zero => cases h
  | succ n ih =>
    unfold tour at h
    split at h
    · next hnearest =>
      cases h
      by_cases hreach : AllReached here contours
      · obtain ⟨k, hk⟩ := exists_nearestFrom hreach 0 0 unreachable
        rw [nearest, hk] at hnearest
        cases hnearest
      · rw [nearest, nearestFrom_eq_error hreach] at hnearest
        cases hnearest
        rfl
    · split at h
      · cases h
      · split at h
        · next hrest =>
          cases h
          exact ih hrest
        · cases h

theorem routed_of_tour {n : Nat} {arranged : List Contour} (hn : n ≤ contours.length)
    (h : tour n here contours = .ok arranged) : Routed here arranged := by
  induction n generalizing here contours arranged with
  | zero =>
    cases h
    trivial
  | succ n ih =>
    have hne : contours ≠ [] := List.length_pos_iff.1 (by omega)
    have hreach : AllReached here contours :=
      (exists_tour_iff hn).1 ⟨arranged, h⟩ 0 (Nat.succ_pos n) [] rfl
    obtain ⟨i, hi, hstep⟩ := exists_tour_succ_iff hne hreach
    obtain ⟨rest, hrest, rfl⟩ := (hstep n arranged).1 h
    exact ⟨hreach _ (List.getElem_mem hi),
      ih (by rw [List.length_eraseIdx_of_lt hi]; omega) hrest⟩

end Tour

def Near (contours : List Contour) : Prop :=
  ∀ a ∈ stops contours, ∀ b ∈ starts contours, a.Reaches b

theorem leave_mem_stops {c : Contour} (hhere : here ∈ stops contours) (hc : c ∈ contours) :
    leave here c ∈ stops contours := by
  unfold leave
  cases hlast : c.getLast? with
  | none => exact hhere
  | some p => exact List.mem_cons_of_mem _ (List.mem_filterMap.2 ⟨c, hc, hlast⟩)

namespace Near

variable {others : List Contour}

theorem allReached (h : Near contours) (hhere : here ∈ stops contours)
    (hsub : ∀ c ∈ others, c ∈ contours) : AllReached here others :=
  fun c hc first hfirst => h here hhere first (List.mem_filterMap.2 ⟨c, hsub c hc, hfirst⟩)

theorem routed (h : Near contours) (hhere : here ∈ stops contours)
    (hsub : ∀ c ∈ others, c ∈ contours) : Routed here others := by
  induction others generalizing here with
  | nil => trivial
  | cons c rest ih =>
    have hc := hsub c List.mem_cons_self
    exact ⟨h.allReached hhere hsub c List.mem_cons_self,
      ih (leave_mem_stops hhere hc) fun e he => hsub e (List.mem_cons_of_mem _ he)⟩

theorem exists_tour [Hypot] (h : Near contours) (hhere : here ∈ stops contours)
    (hsub : ∀ c ∈ others, c ∈ contours) {n : Nat} (hn : n ≤ others.length) :
    ∃ arranged, tour n here others = .ok arranged := by
  induction n generalizing here others with
  | zero => exact ⟨[], rfl⟩
  | succ n ih =>
    have hne : others ≠ [] := List.length_pos_iff.1 (by omega)
    obtain ⟨i, hi, hstep⟩ := exists_tour_succ_iff hne (h.allReached hhere hsub)
    obtain ⟨rest, hrest⟩ := ih (leave_mem_stops hhere (hsub _ (List.getElem_mem hi)))
      (fun c hc => hsub c (List.mem_of_mem_eraseIdx hc))
      (by rw [List.length_eraseIdx_of_lt hi]; omega)
    exact ⟨_, (hstep n _).2 ⟨rest, hrest, rfl⟩⟩

end Near

def Natural (c : Contour) : Prop := ∀ p ∈ c, p.Natural

instance (c : Contour) : Decidable c.Natural := inferInstanceAs (Decidable (∀ p ∈ c, p.Natural))

theorem near_of_natural (h : ∀ c ∈ contours, c.Natural) : Near contours := by
  intro a ha b hb
  obtain ⟨c, hc, hhead⟩ := List.mem_filterMap.1 hb
  have hbNatural : b.Natural := h c hc b (List.mem_of_head? hhead)
  rcases List.mem_cons.1 ha with rfl | ha
  · exact Point.Natural.origin.reaches hbNatural
  · obtain ⟨c', hc', hlast⟩ := List.mem_filterMap.1 ha
    exact (h c' hc' a (List.mem_of_getLast? hlast)).reaches hbNatural

end Contour

namespace Plan

variable [Hypot] {speed : Float} {here : Point} {contours : List Contour}

/-- Legs are measured along a route, and travel that is free is not measured at all. -/
theorem exists_legsFrom (h : 0.0 < speed → Contour.Routed here contours) :
    ∃ legs, legsFrom Point.distance speed here contours = .ok legs := by
  induction contours generalizing here with
  | nil => exact ⟨[], rfl⟩
  | cons c rest ih =>
    obtain ⟨legs, hlegs⟩ := ih fun hspeed => (h hspeed).2
    unfold legsFrom
    cases hhead : c.head? with
    | none =>
      simp only [hlegs]
      exact ⟨_, rfl⟩
    | some first =>
      by_cases hspeed : 0.0 < speed
      · obtain ⟨d, hd⟩ := ((h hspeed).1 first hhead).exists_distance
        simp only [show Amount.positive speed = true from decide_eq_true hspeed, hd, hlegs, if_true]
        exact ⟨_, rfl⟩
      · simp only [show Amount.positive speed = false from decide_eq_false hspeed, hlegs,
          Bool.false_eq_true, if_false]
        exact ⟨_, rfl⟩

theorem legsFrom_eq_error (hspeed : 0.0 < speed) (h : ¬ Contour.Routed here contours) :
    legsFrom Point.distance speed here contours = .error .overflow := by
  have hpositive : Amount.positive speed = true := decide_eq_true hspeed
  induction contours generalizing here with
  | nil => exact absurd trivial h
  | cons c rest ih =>
    unfold legsFrom
    cases hhead : c.head? with
    | none =>
      have hrest : ¬ Contour.Routed (c.leave here) rest := fun hrest =>
        h ⟨fun first hfirst => by simp [hhead] at hfirst, hrest⟩
      simp only [ih hrest]
    | some first =>
      by_cases hreach : here.Reaches first
      · have hrest : ¬ Contour.Routed (c.leave here) rest := by
          intro hrest
          refine h ⟨fun other hother => ?_, hrest⟩
          rw [hhead] at hother
          cases hother
          exact hreach
        obtain ⟨d, hd⟩ := hreach.exists_distance
        simp only [hpositive, hd, ih hrest, if_true]
      · simp only [hpositive, Point.distance_eq_error hreach, if_true]

end Plan

namespace ContourStyle

variable [Hypot] (style : ContourStyle) (p : Picture) {contours : List Contour}

/-- The travel that a style asks for can be measured: in tracing order along the route, and only if
it takes samples; for a greedy tour from every stop to all that is left. -/
def Measured (contours : List Contour) : Prop :=
  match style.ordering with
  | .traced => 0.0 < style.speed → Contour.Routed Point.origin (style.keep contours)
  | .nearest => Contour.Toured Point.origin (style.keep contours)

variable {style}

theorem Measured.exists_plan (h : style.Measured contours) :
    ∃ plan, style.plan p contours = .ok plan := by
  have hplan {arranged : List Contour} (harranged : style.ordering.arrange (style.keep contours) =
      .ok arranged) (hroute : 0.0 < style.speed → Contour.Routed Point.origin arranged) :
      ∃ plan, style.plan p contours = .ok plan := by
    obtain ⟨legs, hlegs⟩ := Plan.exists_legsFrom hroute
    simp only [plan, harranged, Plan.ofContours, hlegs]
    exact ⟨_, rfl⟩
  unfold Measured at h
  cases hordering : style.ordering with
  | traced =>
    rw [hordering] at h hplan
    exact hplan rfl h
  | nearest =>
    rw [hordering] at h hplan
    obtain ⟨arranged, htour⟩ := (Contour.exists_tour_iff le_rfl).2 h
    exact hplan htour fun _ => Contour.routed_of_tour le_rfl htour

theorem plan_eq_error (h : ¬ style.Measured contours) :
    style.plan p contours = .error .overflow := by
  unfold Measured at h
  cases hordering : style.ordering with
  | traced =>
    rw [hordering] at h
    obtain ⟨hspeed, hroute⟩ := Classical.not_imp.1 h
    simp only [plan, hordering, DrawingOrder.arrange, Plan.ofContours,
      Plan.legsFrom_eq_error hspeed hroute]
  | nearest =>
    rw [hordering] at h
    cases htour : Contour.tour (style.keep contours).length Point.origin (style.keep contours) with
    | ok arranged => exact absurd ((Contour.exists_tour_iff le_rfl).1 ⟨arranged, htour⟩) h
    | error fault =>
      simp only [plan, hordering, DrawingOrder.arrange, htour, Contour.fault_of_tour htour]

theorem measured_of_near (h : Contour.Near (style.keep contours)) : style.Measured contours := by
  have hsub : ∀ c ∈ style.keep contours, c ∈ style.keep contours := fun c hc => hc
  have hhere : Point.origin ∈ Contour.stops (style.keep contours) := List.mem_cons_self
  unfold Measured
  split
  · exact fun _ => h.routed hhere hsub
  · exact (Contour.exists_tour_iff le_rfl).1 (h.exists_tour hhere hsub le_rfl)

theorem exists_plan (style : ContourStyle) (p : Picture) (h : ∀ c ∈ contours, c.Natural) :
    ∃ plan, style.plan p contours = .ok plan :=
  (measured_of_near (Contour.near_of_natural fun c hc => h c (List.mem_of_mem_filter hc))).exists_plan
    p

end ContourStyle

end VectorDisplay
