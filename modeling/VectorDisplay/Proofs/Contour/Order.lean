import Mathlib.Data.List.Perm.Basic
import VectorDisplay.Contour.Order
set_option autoImplicit false

namespace VectorDisplay

namespace Contour

variable {here : Point} {contours : List Contour}

theorem nearestFrom_lt [Hypot] {i best k n : Nat} {bestDistance : Float} (hbest : best < n)
    (hlength : i + contours.length ≤ n)
    (h : nearestFrom here contours i best bestDistance = .ok k) : k < n := by
  induction contours generalizing i best bestDistance with
  | nil =>
    cases h
    exact hbest
  | cons c rest ih =>
    rw [List.length_cons] at hlength
    unfold nearestFrom at h
    split at h
    · cases h
    · next d hd =>
      split at h
      · exact ih (by omega) (by omega) h
      · exact ih hbest (by omega) h

theorem nearest_lt [Hypot] {k : Nat} (hne : contours ≠ []) (h : nearest here contours = .ok k) :
    k < contours.length :=
  nearestFrom_lt (List.length_pos_iff.2 hne) (by omega) h

theorem perm_of_tour [Hypot] {n : Nat} {arranged : List Contour} (hn : contours.length = n)
    (h : tour n here contours = .ok arranged) : arranged.Perm contours := by
  induction n generalizing here contours arranged with
  | zero =>
    cases h
    rw [List.length_eq_zero_iff.1 hn]
  | succ n ih =>
    have hne : contours ≠ [] := by
      rintro rfl
      cases hn
    unfold tour at h
    split at h
    · cases h
    · next i hi =>
      have hlt := nearest_lt hne hi
      rw [List.getElem?_eq_getElem hlt] at h
      dsimp only at h
      split at h
      · cases h
      · next rest hrest =>
        cases h
        have herased := ih (by rw [List.length_eraseIdx_of_lt hlt]; omega) hrest
        exact (herased.cons _).trans (List.getElem_cons_eraseIdx_perm hlt)

end Contour

theorem DrawingOrder.perm_of_arrange [Hypot] {o : DrawingOrder} {contours arranged : List Contour}
    (h : o.arrange contours = .ok arranged) : arranged.Perm contours := by
  cases o with
  | traced =>
    cases h
    exact List.Perm.refl _
  | nearest => exact Contour.perm_of_tour rfl h

end VectorDisplay
