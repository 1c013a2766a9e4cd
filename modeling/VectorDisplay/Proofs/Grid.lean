import Mathlib.Data.Nat.Basic
import VectorDisplay.Grid
set_option autoImplicit false

namespace VectorDisplay

namespace Grid

variable {α β : Type} {g : Grid α} {x y u v : Nat}

theorem index_lt (hx : x < g.width) (hy : y < g.height) : y * g.width + x < g.cells.size := by
  have hrow : y * g.width + g.width ≤ g.height * g.width := by
    rw [← Nat.succ_mul]
    exact Nat.mul_le_mul_right _ hy
  rw [g.size_eq, Nat.mul_comm g.width]
  omega

theorem split_index {w : Nat} (hx : x < w) : (y * w + x) % w = x ∧ (y * w + x) / w = y := by
  rw [Nat.mul_comm]
  constructor
  · rw [Nat.mul_add_mod, Nat.mod_eq_of_lt hx]
  · rw [Nat.mul_add_div (Nat.zero_lt_of_lt hx), Nat.div_eq_of_lt hx, Nat.add_zero]

theorem index_inj {w : Nat} (hx : x < w) (hu : u < w) (h : y * w + x = v * w + u) :
    x = u ∧ y = v := by
  have hfirst := split_index (y := y) hx
  have hsecond := split_index (y := v) hu
  rw [h] at hfirst
  exact ⟨hfirst.1.symm.trans hsecond.1, hfirst.2.symm.trans hsecond.2⟩

theorem get?_isSome_iff : (g.get? x y).isSome = true ↔ x < g.width ∧ y < g.height := by
  unfold get?
  split
  · next hin => simp [hin, index_lt hin.1 hin.2]
  · next hout => simp [hout]

theorem get?_eq_some_imp {a : α} (h : g.get? x y = some a) : x < g.width ∧ y < g.height :=
  get?_isSome_iff.1 (by rw [h]; rfl)

theorem exists_get? (hx : x < g.width) (hy : y < g.height) : ∃ a, g.get? x y = some a :=
  Option.isSome_iff_exists.1 (get?_isSome_iff.2 ⟨hx, hy⟩)

theorem ext_get? {h : Grid α} (hwidth : g.width = h.width) (hheight : g.height = h.height)
    (hcells : ∀ x y, g.get? x y = h.get? x y) : g = h := by
  have hget (k : Grid α) {i : Nat} (hi : i < k.width * k.height) :
      k.get? (i % k.width) (i / k.width) = k.cells[i]? := by
    have hpos : 0 < k.width := Nat.pos_of_mul_pos_right (Nat.zero_lt_of_lt hi)
    have hrow : i / k.width < k.height := Nat.div_lt_of_lt_mul hi
    simp [get?, Nat.mod_lt i hpos, hrow, Nat.div_add_mod']
  have hcellsEq : g.cells = h.cells := by
    refine Array.ext_getElem? fun i => ?_
    by_cases hi : i < g.width * g.height
    · rw [← hget g hi, ← hget h (by rwa [← hwidth, ← hheight]), hwidth, hcells]
    · rw [Array.getElem?_eq_none (by rw [g.size_eq]; omega),
        Array.getElem?_eq_none (by rw [h.size_eq, ← hwidth, ← hheight]; omega)]
  cases g
  cases h
  cases hwidth
  cases hheight
  cases hcellsEq
  rfl

theorem get?_ofFn {w h : Nat} {f : Nat → Nat → α} (hx : x < w) (hy : y < h) :
    (ofFn w h f).get? x y = some (f x y) := by
  have hsize : y * w + x < w * h := by
    have := index_lt (g := ofFn w h f) hx hy
    rwa [(ofFn w h f).size_eq] at this
  obtain ⟨hcolumn, hrow⟩ := split_index (y := y) hx
  simp [get?, ofFn, hx, hy, hsize, hcolumn, hrow]

theorem get?_ofFn_eq_some {w h : Nat} {f : Nat → Nat → α} {a : α}
    (ha : (ofFn w h f).get? x y = some a) : f x y = a := by
  have hin : x < w ∧ y < h := get?_eq_some_imp ha
  rw [get?_ofFn hin.1 hin.2] at ha
  exact Option.some_inj.1 ha

theorem get?_map (f : α → β) : (g.map f).get? x y = (g.get? x y).map f := by
  unfold get? map
  split
  · simp
  · rfl

theorem get?_set {a : α} (hx : x < g.width) (hy : y < g.height) :
    (g.set x y a).get? u v = if x = u ∧ y = v then some a else g.get? u v := by
  unfold get?
  rw [width_set, height_set]
  split
  · next hin =>
    simp only [set, hx, hy, and_self, if_true, Array.getElem?_setIfInBounds]
    by_cases hsame : x = u ∧ y = v
    · obtain ⟨rfl, rfl⟩ := hsame
      simp [index_lt hx hy]
    · have hindex : y * g.width + x ≠ v * g.width + u := fun h => hsame (index_inj hx hin.1 h)
      simp [hsame, hindex]
  · next hout =>
    rw [if_neg]
    rintro ⟨rfl, rfl⟩
    exact hout ⟨hx, hy⟩

theorem at?_eq_some {i j : Int} {a : α} (h : g.at? i j = some a) :
    0 ≤ i ∧ 0 ≤ j ∧ g.get? i.toNat j.toNat = some a := by
  unfold at? at h
  split at h
  · next hin => exact ⟨hin.1, hin.2, h⟩
  · cases h

end Grid

end VectorDisplay
