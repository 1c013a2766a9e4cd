import VectorDisplay.Contour.Border
import VectorDisplay.Proofs.Grid
set_option autoImplicit false

namespace VectorDisplay

namespace Border

variable {g : Grid UInt8} {labels labels' : Labels} {c : Cell}

def IsForeground (g : Grid UInt8) (c : Cell) : Prop := ∃ v, g.get? c.1 c.2 = some v ∧ v ≠ 0

/-- Labels other than zero stand on foreground. -/
def OnForeground (g : Grid UInt8) (labels : Labels) : Prop :=
  ∀ x y v, labels.get? x y = some v → v ≠ 0 → IsForeground g (x, y)

theorem OnForeground.initial (g : Grid UInt8) :
    OnForeground g (g.map fun v => if v = 0 then 0 else 1) := by
  intro x y v hv hne
  rw [Grid.get?_map, Option.map_eq_some_iff] at hv
  obtain ⟨a, ha, rfl⟩ := hv
  refine ⟨a, ha, ?_⟩
  rintro rfl
  exact hne rfl

theorem OnForeground.set (h : OnForeground g labels) (hc : IsForeground g c) (n : Int) :
    OnForeground g (labels.set c.1 c.2 n) := by
  by_cases hin : c.1 < labels.width ∧ c.2 < labels.height
  · intro x y v hv hne
    rw [Grid.get?_set hin.1 hin.2] at hv
    split at hv
    · next hsame =>
      rw [← hsame.1, ← hsame.2]
      exact hc
    · exact h x y v hv hne
  · have hkept : labels.set c.1 c.2 n = labels := by
      unfold Grid.set
      rw [if_neg hin]
    rw [hkept]
    exact h

theorem OnForeground.mark (h : OnForeground g labels) (hc : IsForeground g c) (number : Int)
    (pastEast : Bool) : OnForeground g (mark labels number c pastEast) := by
  unfold Border.mark
  split
  · exact h.set hc _
  · split
    · exact h.set hc _
    · exact h

theorem isForeground_of_neighbour? (h : OnForeground g labels) {d : Direction} {n : Cell}
    (hn : neighbour? labels c d = some n) : IsForeground g n := by
  unfold neighbour? at hn
  dsimp only at hn
  split at hn
  · cases hn
  · next v hat =>
    obtain ⟨hx, hy, hget⟩ := Grid.at?_eq_some hat
    split at hn
    · cases hn
    · next hne =>
      cases hn
      exact h _ _ v hget hne

theorem isForeground_of_look (h : OnForeground g labels) {directions : List Direction}
    {pastEast : Bool} {s : Sight} (hs : look labels c directions pastEast = some s) :
    IsForeground g s.cell := by
  induction directions generalizing pastEast with
  | nil => cases hs
  | cons d rest ih =>
    unfold look at hs
    split at hs
    · next n hn =>
      cases hs
      exact isForeground_of_neighbour? h hn
    · exact ih hs

theorem follow_foreground {number : Int} {start second : Cell} {steps : ℕ} {here : Cell}
    {came : Direction} {visited border : List Cell} (h : OnForeground g labels)
    (hhere : IsForeground g here) (hvisited : ∀ c ∈ visited, IsForeground g c)
    (hfollow : follow number start second steps labels here came visited = (labels', border)) :
    OnForeground g labels' ∧ ∀ c ∈ border, IsForeground g c := by
  induction steps generalizing labels here came visited with
  | zero =>
    cases hfollow
    exact ⟨h, fun c hc => hvisited c (List.mem_reverse.1 hc)⟩
  | succ steps ih =>
    have hall : ∀ c ∈ here :: visited, IsForeground g c := by
      intro c hc
      rcases List.mem_cons.1 hc with rfl | hc
      · exact hhere
      · exact hvisited c hc
    unfold follow at hfollow
    split at hfollow
    · cases hfollow
      exact ⟨h, fun c hc => hall c (List.mem_reverse.1 hc)⟩
    · next s hs =>
      dsimp only at hfollow
      have hmarked := h.mark hhere number s.pastEast
      split at hfollow
      · cases hfollow
        exact ⟨hmarked, fun c hc => hall c (List.mem_reverse.1 hc)⟩
      · exact ih hmarked (isForeground_of_look h hs) hall hfollow

theorem trace_foreground {number : Int} {start : Cell} {d : Direction} {border : List Cell}
    (h : OnForeground g labels) (hstart : IsForeground g start)
    (htrace : trace labels number start d = (labels', border)) :
    OnForeground g labels' ∧ ∀ c ∈ border, IsForeground g c := by
  unfold trace at htrace
  split at htrace
  · cases htrace
    exact ⟨h.set hstart _, fun c hc => by rwa [List.mem_singleton.1 hc]⟩
  · exact follow_foreground h hstart (fun c hc => absurd hc List.not_mem_nil) htrace

theorem isForeground_of_start? (h : OnForeground g labels) {d : Direction}
    (hd : start? labels c = some d) : IsForeground g c := by
  unfold start? at hd
  split at hd
  · cases hd
  · next v hv =>
    refine h _ _ v hv ?_
    rintro rfl
    simp at hd

def Scan.OnForeground (g : Grid UInt8) (s : Scan) : Prop :=
  Border.OnForeground g s.labels ∧ ∀ border ∈ s.found, ∀ c ∈ border, IsForeground g c

theorem Scan.OnForeground.visit {s : Scan} (h : s.OnForeground g) (c : Cell) :
    (s.visit c).OnForeground g := by
  obtain ⟨hlabels, hfound⟩ := h
  unfold Scan.visit
  split
  · exact ⟨hlabels, hfound⟩
  · next d hd =>
    obtain ⟨hafter, hborder⟩ := trace_foreground hlabels (isForeground_of_start? hlabels hd)
      (Prod.eta (trace s.labels (s.number + 1) c d)).symm
    refine ⟨hafter, ?_⟩
    intro border hmem
    rcases List.mem_cons.1 hmem with rfl | hmem
    · exact hborder
    · exact hfound border hmem

theorem Scan.OnForeground.foldl {s : Scan} (h : s.OnForeground g) (cells : List Cell) :
    (cells.foldl Scan.visit s).OnForeground g := by
  induction cells generalizing s with
  | nil => exact h
  | cons c rest ih => exact ih (h.visit c)

theorem borders_foreground {border : List Cell} (h : border ∈ borders g) :
    ∀ c ∈ border, IsForeground g c := by
  have hscan := Scan.OnForeground.foldl (s := ⟨g.map fun v => if v = 0 then 0 else 1, 1, []⟩)
    ⟨OnForeground.initial g, fun border hb => absurd hb List.not_mem_nil⟩
    ((List.range (g.width * g.height)).map fun i => (i % g.width, i / g.width))
  exact hscan.2 border (List.mem_reverse.1 h)

end Border

theorem Contour.exists_foreground_of_ofBorders {g : Grid UInt8} {c : Contour}
    (hc : c ∈ Contour.ofBorders g) {p : Point} (hp : p ∈ c) :
    ∃ x y, p = Point.ofNat x y ∧ Border.IsForeground g (x, y) := by
  obtain ⟨border, hborder, rfl⟩ := List.mem_map.1 hc
  obtain ⟨cell, hcell, rfl⟩ := List.mem_map.1 hp
  exact ⟨cell.1, cell.2, rfl, Border.borders_foreground hborder cell hcell⟩

end VectorDisplay
