import VectorDisplay.Proofs.Contour.Strength
set_option autoImplicit false

namespace VectorDisplay

namespace Edges

variable {strength : Grid Float32} {low : Float32} {x y : ℕ}

theorem isMarked_mark {f : Front} {u v : ℕ} (h : (f.mark x y).isMarked u v = true) :
    (x = u ∧ y = v) ∨ f.isMarked u v = true := by
  by_cases hin : x < f.map.width ∧ y < f.map.height
  · simp only [Front.isMarked, Front.mark, Grid.get?_set hin.1 hin.2] at h
    split at h
    · next hsame => exact .inl hsame
    · exact .inr h
  · simp only [Front.isMarked, Front.mark, Grid.set, hin, if_false] at h
    exact .inr h

theorem growth_near : ∀ d ∈ growth, -1 ≤ d.1 ∧ d.1 ≤ 1 ∧ -1 ≤ d.2 ∧ d.2 ≤ 1 := by decide

theorem exists_beside (hinner : isInner strength x y = true) {d : Int × Int} (hd : d ∈ growth) :
    ∃ s, strength.at? (x + d.1) (y + d.2) = some s ∧
      strength.get? (x + d.1).toNat (y + d.2).toNat = some s := by
  obtain ⟨hx, hxw, hy, hyh⟩ := isInner_iff.1 hinner
  obtain ⟨hleft, hright, hup, hdown⟩ := growth_near d hd
  obtain ⟨s, hs⟩ := Grid.exists_get? (g := strength) (x := (x + d.1).toNat) (y := (y + d.2).toNat)
    (by omega) (by omega)
  refine ⟨s, ?_, hs⟩
  rw [Grid.at?, if_pos ⟨by omega, by omega⟩]
  exact hs

section Inside

/-- A map as large as the strengths, with pending cells off the rim alone. -/
structure Front.Inside (strength : Grid Float32) (f : Front) : Prop where
  width_eq : f.map.width = strength.width
  height_eq : f.map.height = strength.height
  inner : ∀ c ∈ f.pending, isInner strength c.1 c.2 = true

def RimDark (strength : Grid Float32) (low : Float32) : Prop :=
  ∀ x y s, strength.get? x y = some s → low ≤ s → isInner strength x y = true

theorem Front.Inside.mark {f : Front} (h : f.Inside strength)
    (hinner : isInner strength x y = true) :
    (f.mark x y).Inside strength where
  width_eq := by simpa [Front.mark] using h.width_eq
  height_eq := by simpa [Front.mark] using h.height_eq
  inner := by
    intro c hc
    rcases List.mem_cons.1 hc with rfl | hc
    · exact hinner
    · exact h.inner c hc

theorem exists_look (hrim : RimDark strength low) (hinner : isInner strength x y = true)
    {directions : List (Int × Int)} (hdirections : ∀ d ∈ directions, d ∈ growth) {f : Front}
    (h : f.Inside strength) :
    ∃ f', look strength low x y directions f = .ok f' ∧ f'.Inside strength := by
  induction directions generalizing f with
  | nil => exact ⟨f, rfl, h⟩
  | cons d rest ih =>
    obtain ⟨dx, dy⟩ := d
    obtain ⟨s, hat, hget⟩ := exists_beside hinner (hdirections _ List.mem_cons_self)
    have hrest : ∀ d ∈ rest, d ∈ growth := fun d hd => hdirections d (List.mem_cons_of_mem _ hd)
    simp only [look, hat]
    split
    · next hcontinues =>
      have hlow : low ≤ s := of_decide_eq_true (Bool.and_eq_true_iff.1 hcontinues).1
      exact ih hrest (h.mark (hrim _ _ s hget hlow))
    · exact ih hrest h

theorem exists_grow (hrim : RimDark strength low) {rounds : ℕ} {f : Front}
    (h : f.Inside strength) :
    ∃ map, grow strength low rounds f = .ok map ∧ map.width = strength.width ∧
      map.height = strength.height := by
  induction rounds generalizing f with
  | zero => exact ⟨f.map, rfl, h.width_eq, h.height_eq⟩
  | succ rounds ih =>
    unfold grow
    cases hpending : f.pending with
    | nil => exact ⟨f.map, rfl, h.width_eq, h.height_eq⟩
    | cons c pending =>
      obtain ⟨x, y⟩ := c
      have hmem : ∀ c ∈ (x, y) :: pending, isInner strength c.1 c.2 = true := by
        rw [← hpending]
        exact h.inner
      have hleft : Front.Inside strength { f with pending } :=
        ⟨h.width_eq, h.height_eq, fun c hc => hmem c (List.mem_cons_of_mem _ hc)⟩
      obtain ⟨f', hlook, hinside⟩ :=
        exists_look hrim (hmem (x, y) List.mem_cons_self) (fun d hd => hd) hleft
      simp only [hlook]
      exact ih hinside

end Inside

section Outside

theorem look_append (first second : List (Int × Int)) (f : Front) :
    look strength low x y (first ++ second) f =
      (look strength low x y first f).bind (look strength low x y second) := by
  induction first generalizing f with
  | nil => rfl
  | cons d rest ih =>
    obtain ⟨dx, dy⟩ := d
    simp only [List.cons_append, look]
    split
    · rfl
    · exact ih _

theorem look_eq_error {directions : List (Int × Int)} {f : Front} {fault : Fault}
    (h : look strength low x y directions f = .error fault) : fault = .outside := by
  induction directions generalizing f with
  | nil => cases h
  | cons d rest ih =>
    obtain ⟨dx, dy⟩ := d
    simp only [look] at h
    split at h
    · cases h
      rfl
    · exact ih h

def Front.UpTo (f : Front) (diagonal : Int) : Prop :=
  ∀ u v : ℕ, f.isMarked u v = true → (v : Int) - u ≤ diagonal

theorem Front.UpTo.mark {f : Front} {diagonal : Int} (h : f.UpTo diagonal)
    (hxy : (y : Int) - x ≤ diagonal) : (f.mark x y).UpTo diagonal := by
  intro u v hmarked
  rcases isMarked_mark hmarked with ⟨rfl, rfl⟩ | hbefore
  · exact hxy
  · exact h u v hbefore

theorem upTo_look {directions : List (Int × Int)} {f f' : Front} {diagonal : Int}
    (hlook : look strength low x y directions f = .ok f') (h : f.UpTo diagonal)
    (hdirections : ∀ d ∈ directions, y + d.2 - (x + d.1) ≤ diagonal) :
    f'.UpTo diagonal := by
  induction directions generalizing f with
  | nil =>
    cases hlook
    exact h
  | cons d rest ih =>
    obtain ⟨dx, dy⟩ := d
    simp only [look] at hlook
    have hrest : ∀ d ∈ rest, y + d.2 - (x + d.1) ≤ diagonal :=
      fun d hd => hdirections d (List.mem_cons_of_mem _ hd)
    split at hlook
    · cases hlook
    · next s hat =>
      obtain ⟨hnx, hny, -⟩ := Grid.at?_eq_some hat
      split at hlook
      · have hfirst := hdirections (dx, dy) List.mem_cons_self
        exact ih hlook (h.mark (by omega)) hrest
      · exact ih hlook h hrest

theorem Front.UpTo.mono {f : Front} {d d' : Int} (h : f.UpTo d) (hd : d ≤ d') : f.UpTo d' :=
  fun u v hmarked => le_trans (h u v hmarked) hd

def MetEverywhere (strength : Grid Float32) (low : Float32) : Prop :=
  ∀ x y s, strength.get? x y = some s → low ≤ s

theorem exists_last_look (hmet : MetEverywhere strength low) {f f' : Front} {diagonal : Int}
    (hlook : look strength low x y [(-1, 1)] f = .ok f') (h : f.UpTo diagonal)
    (hdiagonal : diagonal < y + 1 - (x - 1)) :
    ∃ u v, u + 1 = x ∧ v = y + 1 ∧ f' = f.mark u v := by
  simp only [look] at hlook
  split at hlook
  · cases hlook
  · next s hat =>
    obtain ⟨hx, hy, hget⟩ := Grid.at?_eq_some hat
    have hlow : low ≤ s := hmet _ _ s hget
    have hfresh : f.isMarked (x + -1 : Int).toNat (y + 1 : Int).toNat = false := by
      rw [← Bool.not_eq_true]
      intro hmarked
      have := h _ _ hmarked
      omega
    rw [if_pos (by rw [hfresh, decide_eq_true hlow]; rfl)] at hlook
    cases hlook
    exact ⟨_, _, by omega, by omega, rfl⟩

/-- Where every cell meets the threshold, the growth runs down to the left until it leaves the image. -/
theorem grow_eq_error (hmet : MetEverywhere strength low) {rounds : ℕ} {f : Front}
    {pending : List (ℕ × ℕ)} (hpending : f.pending = (x, y) :: pending) (hrounds : x < rounds)
    (h : f.UpTo (y - x)) : grow strength low rounds f = .error .outside := by
  induction rounds generalizing x y f pending with
  | zero => omega
  | succ rounds ih =>
    unfold grow
    simp only [hpending]
    -- Five of the neighbours lie on the next diagonal at most. The last one lies beyond it, so it is
    -- not marked yet, and it is the first to be looked at afterwards.
    have hsplit : growth = [(1, 0), (1, 1), (0, 1), (-1, -1), (-1, 0)] ++ [(-1, 1)] := rfl
    rw [hsplit, look_append]
    cases hearly : look strength low x y [(1, 0), (1, 1), (0, 1), (-1, -1), (-1, 0)]
        { f with pending } with
    | error fault =>
      rw [look_eq_error hearly]
      rfl
    | ok seen =>
      have hseen : seen.UpTo (y - x + 1) := by
        refine upTo_look hearly (Front.UpTo.mono h (by omega)) ?_
        intro d hd
        simp only [List.mem_cons, List.not_mem_nil, or_false] at hd
        rcases hd with rfl | rfl | rfl | rfl | rfl <;> simp <;> omega
      dsimp only [Except.bind]
      cases hlast : look strength low x y [(-1, 1)] seen with
      | error fault =>
        rw [look_eq_error hlast]
      | ok last =>
        obtain ⟨u, v, hu, hv, rfl⟩ := exists_last_look hmet hlast hseen (by omega)
        exact ih rfl (by omega) ((hseen.mono (by omega)).mark (by omega))

end Outside

section Seeds

variable {t : Thresholds}

def HasStart (strength : Grid Float32) (high : Float32) : Prop :=
  ∃ x y s, strength.get? x y = some s ∧ isInner strength x y = true ∧ high ≤ s

def seed (strength : Grid Float32) (t : Thresholds) (map : Checked (Grid UInt8)) (i : ℕ) :
    Checked (Grid UInt8) :=
  match map with
  | .error fault => .error fault
  | .ok map =>
    let x := i % strength.width
    let y := i / strength.width
    if isInner strength x y && t.high ≤ (strength.get? x y).getD 0.0 &&
        !(Front.mk map []).isMarked x y then
      grow strength t.low (strength.width * strength.height) ((Front.mk map []).mark x y)
    else .ok map

theorem hysteresis_eq : hysteresis strength t =
    (List.range (strength.width * strength.height)).foldl (seed strength t)
      (.ok (Grid.ofFn strength.width strength.height fun _ _ => 0)) := rfl

theorem isMarked_blank (w h u v : ℕ) :
    (Front.mk (Grid.ofFn w h fun _ _ => 0) []).isMarked u v = false := by
  unfold Front.isMarked
  cases hcell : (Grid.ofFn w h fun _ _ => (0 : UInt8)).get? u v with
  | none => rfl
  | some v => simp [← Grid.get?_ofFn_eq_some hcell]

theorem exists_foldl_seed (hrim : RimDark strength t.low) (cells : List ℕ) {map : Grid UInt8}
    (hwidth : map.width = strength.width) (hheight : map.height = strength.height) :
    ∃ map', cells.foldl (seed strength t) (.ok map) = .ok map' ∧
      map'.width = strength.width ∧ map'.height = strength.height := by
  induction cells generalizing map with
  | nil => exact ⟨map, rfl, hwidth, hheight⟩
  | cons i rest ih =>
    simp only [List.foldl_cons, seed]
    split
    · next hstart =>
      have hinner : isInner strength (i % strength.width) (i / strength.width) = true := by
        simp only [Bool.and_eq_true] at hstart
        exact hstart.1.1
      have hfront : (Front.mk map []).Inside strength :=
        ⟨hwidth, hheight, fun c hc => absurd hc List.not_mem_nil⟩
      obtain ⟨grown, hgrow, hgrownWidth, hgrownHeight⟩ := exists_grow hrim (hfront.mark hinner)
      rw [hgrow]
      exact ih hgrownWidth hgrownHeight
    · exact ih hwidth hheight

theorem foldl_seed_error (cells : List ℕ) (fault : Fault) :
    cells.foldl (seed strength t) (.error fault) = .error fault := by
  induction cells with
  | nil => rfl
  | cons i rest ih => exact ih

/-- Up to the first strong cell nothing is marked; from there the growth leaves the image. -/
theorem foldl_seed_eq_error (hmet : MetEverywhere strength t.low) {cells : List ℕ}
    {map : Grid UInt8} (hdark : ∀ u v, (Front.mk map []).isMarked u v = false)
    (hstart : ∃ i ∈ cells, isInner strength (i % strength.width) (i / strength.width) = true ∧
      t.high ≤ (strength.get? (i % strength.width) (i / strength.width)).getD 0.0) :
    cells.foldl (seed strength t) (.ok map) = .error .outside := by
  induction cells with
  | nil => simp at hstart
  | cons i rest ih =>
    rw [List.foldl_cons]
    by_cases hi : isInner strength (i % strength.width) (i / strength.width) = true ∧
        t.high ≤ (strength.get? (i % strength.width) (i / strength.width)).getD 0.0
    · have hstarts : seed strength t (.ok map) i = .error .outside := by
        simp only [seed, hdark, hi.1, hi.2, decide_true, Bool.not_false, Bool.and_self, if_true]
        obtain ⟨hx, hxw, hy, hyh⟩ := isInner_iff.1 hi.1
        have hnone : (Front.mk map []).UpTo
            ((i / strength.width : ℕ) - (i % strength.width : ℕ)) := by
          intro u v hmarked
          rw [hdark] at hmarked
          cases hmarked
        refine grow_eq_error hmet rfl ?_ (hnone.mark (le_refl _))
        calc i % strength.width < strength.width * 1 := by omega
          _ ≤ strength.width * strength.height := Nat.mul_le_mul_left _ (by omega)
      rw [hstarts]
      exact foldl_seed_error rest .outside
    · have hskipped : seed strength t (.ok map) i = .ok map := by
        simp only [seed, hdark, Bool.not_false, Bool.and_true]
        rw [if_neg]
        simpa using hi
      rw [hskipped]
      obtain ⟨j, hj, hstrong⟩ := hstart
      rcases List.mem_cons.1 hj with rfl | hj
      · exact absurd hstrong hi
      · exact ih ⟨j, hj, hstrong⟩

theorem foldl_seed_of_not_hasStart (h : ¬ HasStart strength t.high) (cells : List ℕ)
    (map : Grid UInt8) : cells.foldl (seed strength t) (.ok map) = .ok map := by
  induction cells with
  | nil => rfl
  | cons i rest ih =>
    have hskipped : seed strength t (.ok map) i = .ok map := by
      simp only [seed]
      rw [if_neg]
      intro hstart
      simp only [Bool.and_eq_true, decide_eq_true_eq] at hstart
      obtain ⟨⟨hinner, hhigh⟩, -⟩ := hstart
      obtain ⟨hx, hxw, hy, hyh⟩ := isInner_iff.1 hinner
      obtain ⟨s, hs⟩ := Grid.exists_get? (g := strength) (x := i % strength.width)
        (y := i / strength.width) (by omega) (by omega)
      rw [hs, Option.getD_some] at hhigh
      exact h ⟨_, _, s, hs, hinner, hhigh⟩
    rw [List.foldl_cons, hskipped]
    exact ih

theorem HasStart.exists_index (h : HasStart strength t.high) :
    ∃ i ∈ List.range (strength.width * strength.height),
      isInner strength (i % strength.width) (i / strength.width) = true ∧
        t.high ≤ (strength.get? (i % strength.width) (i / strength.width)).getD 0.0 := by
  obtain ⟨x, y, s, hs, hinner, hhigh⟩ := h
  obtain ⟨hx, hy⟩ := Grid.get?_eq_some_imp hs
  obtain ⟨hcolumn, hrow⟩ := Grid.split_index (y := y) hx
  refine ⟨y * strength.width + x, ?_, ?_⟩
  · rw [List.mem_range, ← strength.size_eq]
    exact Grid.index_lt hx hy
  · rw [hcolumn, hrow, hs, Option.getD_some]
    exact ⟨hinner, hhigh⟩

theorem exists_hysteresis (h : RimDark strength t.low ∨ ¬ HasStart strength t.high) :
    ∃ map, hysteresis strength t = .ok map ∧ map.width = strength.width ∧
      map.height = strength.height := by
  rw [hysteresis_eq]
  rcases h with hrim | hdark
  · exact exists_foldl_seed hrim _ rfl rfl
  · exact ⟨_, foldl_seed_of_not_hasStart hdark _ _, rfl, rfl⟩

theorem hysteresis_eq_error (hmet : MetEverywhere strength t.low)
    (hstart : HasStart strength t.high) : hysteresis strength t = .error .outside := by
  rw [hysteresis_eq]
  exact foldl_seed_eq_error hmet (isMarked_blank _ _) hstart.exists_index

end Seeds

theorem detect_eq (t : Thresholds) (g : Grid UInt8) :
    detect t g = if t.low ≤ t.high then hysteresis (strengths g) t else .error .precondition := rfl

/-- When edge detection ends: the thresholds ascend, and the lower one is positive or no edge starts. -/
def Ends (t : Thresholds) (g : Grid UInt8) : Prop :=
  t.low ≤ t.high ∧ (0.0 < t.low ∨ ¬ HasStart (strengths g) t.high)

theorem exists_detect {t : Thresholds} {g : Grid UInt8} (h : Ends t g) :
    ∃ map, detect t g = .ok map ∧ map.width = g.width ∧ map.height = g.height := by
  obtain ⟨hascending, hlow⟩ := h
  have hrim : 0.0 < t.low → RimDark (strengths g) t.low :=
    fun hpositive x y s hs hmet => isInner_of_low_le hpositive hs hmet
  obtain ⟨map, hmap, hwidth, hheight⟩ := exists_hysteresis (hlow.imp_left hrim)
  rw [width_strengths] at hwidth
  rw [height_strengths] at hheight
  rw [detect_eq, if_pos hascending]
  exact ⟨map, hmap, hwidth, hheight⟩

theorem ends_of_detect {t : Thresholds} {g map : Grid UInt8} (hfinite : t.low.isFinite = true)
    (hbelow : ¬ t.low < 0.0) (hmap : detect t g = .ok map) : Ends t g := by
  rw [detect_eq] at hmap
  split at hmap
  · next hascending =>
    refine ⟨hascending, ?_⟩
    by_contra hlow
    obtain ⟨habove, hstart⟩ := not_or.1 hlow
    have hmet : MetEverywhere (strengths g) t.low :=
      fun x y s hs => low_le_of_zero hfinite hbelow habove hs
    rw [hysteresis_eq_error hmet (not_not.1 hstart)] at hmap
    cases hmap
  · cases hmap

end Edges

end VectorDisplay
