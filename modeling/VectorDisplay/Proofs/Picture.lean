import VectorDisplay.Platform
import VectorDisplay.Proofs.Grid
import VectorDisplay.Render
set_option autoImplicit false

namespace VectorDisplay

namespace Picture

variable {p q : Picture}

theorem pixel?_isSome_iff {x y : Nat} :
    (p.pixel? x y).isSome = true ↔ x < p.width.toNat ∧ y < p.height.toNat := by
  unfold pixel?
  split
  · next hin => simp [hin]
  · next hout => simp [hout]

theorem pixel?_eq_none {x y : Nat} (h : ¬ (x < p.width.toNat ∧ y < p.height.toNat)) :
    p.pixel? x y = none := dif_neg h

theorem getElem?_row {x y : Nat} (hx : x < p.width.toNat) (hy : y < p.height.toNat) :
    (p.row y)[x]? = p.pixel? x y := by
  have hindex := p.index_lt hx hy
  have hsize : x < (p.row y).size := by rwa [p.size_row hy]
  rw [Array.getElem?_eq_getElem hsize]
  unfold row at hsize ⊢
  simp only [ByteArray.data_extract, Array.getElem_extract]
  simp [pixel?, hx, hy, ByteArray.getElem_eq_getElem_data]

theorem getElem?_rows {x y n : Nat} (hx : x < p.width.toNat) (hy : y < n)
    (hn : n ≤ p.height.toNat) : (p.rows n)[y * p.width.toNat + x]? = p.pixel? x y := by
  induction n with
  | zero => omega
  | succ n ih =>
    rw [rows, Array.getElem?_append, p.size_rows (by omega)]
    rcases Nat.lt_or_eq_of_le (Nat.le_of_lt_succ hy) with hlt | rfl
    · have hindex : y * p.width.toNat + x < p.width.toNat * n := by
        have := Nat.mul_le_mul_left p.width.toNat (Nat.succ_le_of_lt hlt)
        rw [Nat.mul_succ, Nat.mul_comm] at this
        omega
      rw [if_pos hindex, ih hlt (by omega)]
    · rw [Nat.mul_comm, if_neg (by omega), Nat.add_sub_cancel_left, getElem?_row hx (by omega)]

@[simp] theorem get?_workingCopy (p : Picture) (x y : Nat) :
    p.workingCopy.get? x y = p.pixel? x y := by
  by_cases hin : x < p.width.toNat ∧ y < p.height.toNat
  · exact (if_pos hin).trans (getElem?_rows hin.1 hin.2 (Nat.le_refl _))
  · rw [pixel?_eq_none hin]
    exact if_neg hin

theorem brightness_ofNat (p : Picture) {x y : Nat} (hx : x < 0x8000_0000) (hy : y < 0x8000_0000) :
    p.brightness (.ofNat x) (.ofNat y) = (p.pixel? x y).getD 0 := by
  have hcolumn : (Int32.ofNat x).toInt = x := Int32.toInt_ofNat_of_lt hx
  have hrow : (Int32.ofNat y).toInt = y := Int32.toInt_ofNat_of_lt hy
  have hnatural : ¬ (Int32.ofNat x < 0 ∨ Int32.ofNat y < 0) := by
    rw [Int32.lt_iff_toInt_lt, Int32.lt_iff_toInt_lt, hcolumn, hrow]
    simp
  unfold brightness
  rw [if_neg hnatural, Int32.toNatClampNeg_ofNat_of_lt hx, Int32.toNatClampNeg_ofNat_of_lt hy]

/-- Pictures that look the same: of one size and time, with the same pixels. -/
structure LooksLike (p q : Picture) : Prop where
  width_eq : p.width = q.width
  height_eq : p.height = q.height
  time_eq : p.time = q.time
  pixel_eq : ∀ x y, p.pixel? x y = q.pixel? x y

theorem LooksLike.of_pixels (hwidth : p.width = q.width) (hheight : p.height = q.height)
    (htime : p.time = q.time)
    (h : ∀ x < p.width.toNat, ∀ y < p.height.toNat, p.pixel? x y = q.pixel? x y) :
    p.LooksLike q where
  width_eq := hwidth
  height_eq := hheight
  time_eq := htime
  pixel_eq x y := by
    by_cases hin : x < p.width.toNat ∧ y < p.height.toNat
    · exact h x hin.1 y hin.2
    · have hout : ¬ (x < q.width.toNat ∧ y < q.height.toNat) := by rwa [← hwidth, ← hheight]
      rw [pixel?_eq_none hin, pixel?_eq_none hout]

theorem pixel?_eq_of_brightness (hwidth : p.width = q.width) (hheight : p.height = q.height)
    (hcolumns : p.width.toNat ≤ 0x8000_0000) (hrows : p.height.toNat ≤ 0x8000_0000)
    {x y : Nat} (hx : x < p.width.toNat) (hy : y < p.height.toNat)
    (h : p.brightness (.ofNat x) (.ofNat y) = q.brightness (.ofNat x) (.ofNat y)) :
    p.pixel? x y = q.pixel? x y := by
  rw [brightness_ofNat p (by omega) (by omega), brightness_ofNat q (by omega) (by omega)]
    at h
  obtain ⟨v, hv⟩ := Option.isSome_iff_exists.1 (pixel?_isSome_iff.2 ⟨hx, hy⟩)
  obtain ⟨w, hw⟩ := Option.isSome_iff_exists.1
    (pixel?_isSome_iff.2 ⟨hwidth ▸ hx, hheight ▸ hy⟩ : (q.pixel? x y).isSome = true)
  rw [hv, hw] at h ⊢
  exact congrArg some h

theorem LooksLike.brightness_eq (h : p.LooksLike q) : p.brightness = q.brightness := by
  funext x y
  unfold brightness
  rw [h.pixel_eq]

theorem LooksLike.workingCopy_eq (h : p.LooksLike q) : p.workingCopy = q.workingCopy :=
  Grid.ext_get? (congrArg UInt32.toNat h.width_eq) (congrArg UInt32.toNat h.height_eq)
    fun x y => by rw [get?_workingCopy, get?_workingCopy, h.pixel_eq]

end Picture

section Drawing

variable {p q : Picture}

theorem ContourStyle.draw_eq_of_looksLike [Hypot] (h : p.LooksLike q) (style : ContourStyle)
    (contours : List Contour) (buffer : Buffer) :
    style.draw p contours buffer = style.draw q contours buffer := by
  unfold draw
  rw [h.brightness_eq, h.width_eq, h.height_eq]

theorem SweepStyle.cell_eq_of_looksLike (h : p.LooksLike q) (style : SweepStyle) :
    style.cell p = style.cell q := by
  have hbrightness : style.brightness p = style.brightness q := by
    funext column row
    unfold brightness
    rw [h.brightness_eq, h.width_eq, h.height_eq]
  funext k
  unfold cell
  rw [hbrightness]

theorem SweepStyle.draw_eq_of_looksLike (h : p.LooksLike q) (style : SweepStyle)
    (buffer : Buffer) : style.draw p buffer = style.draw q buffer := by
  have hcell := style.cell_eq_of_looksLike h
  have htotal : style.total p = style.total q := by
    unfold total
    rw [hcell]
  have hdrawFrom (total capacity left : Nat) (buffer : Buffer) :
      style.drawFrom p total capacity left buffer = style.drawFrom q total capacity left buffer := by
    induction left generalizing buffer with
    | zero => rfl
    | succ left ih =>
      unfold drawFrom
      simp only [hcell, ih]
  unfold draw
  simp only [htotal, hdrawFrom]

theorem Settings.draw_eq_of_looksLike [Hypot] (h : p.LooksLike q) (s : Settings) (buffer : Buffer) :
    s.generator.draw p buffer = s.generator.draw q buffer := by
  unfold generator
  cases s.mode with
  | contour =>
    simp only [Generator.contour, Generator.ofContours, h.workingCopy_eq,
      ContourStyle.draw_eq_of_looksLike h]
  | raster => simp only [Generator.sweep, SweepStyle.draw_eq_of_looksLike h]

theorem Settings.render_eq_of_looksLike [Hypot] [Memory] (h : p.LooksLike q) (s : Settings) :
    s.render p = s.render q := by
  unfold render
  simp only [draw_eq_of_looksLike h, h.time_eq]

end Drawing

namespace Settings

/-- Strides and bytes that belong to no pixel change nothing in what is rendered: not the samples, not
the report, not the log and not the fault. -/
theorem render_ignores_padding [Hypot] [Memory] (s : Settings) (p q : Picture)
    (hwidth : p.width = q.width) (hheight : p.height = q.height) (htime : p.time = q.time) :
    ((∀ x < p.width.toNat, ∀ y < p.height.toNat, p.pixel? x y = q.pixel? x y) →
      s.render p = s.render q) ∧
    (p.width.toNat ≤ 0x8000_0000 → p.height.toNat ≤ 0x8000_0000 →
      (∀ x < p.width.toNat, ∀ y < p.height.toNat,
        p.brightness (.ofNat x) (.ofNat y) = q.brightness (.ofNat x) (.ofNat y)) →
      s.render p = s.render q) := by
  have hpixels (h : ∀ x < p.width.toNat, ∀ y < p.height.toNat, p.pixel? x y = q.pixel? x y) :
      s.render p = s.render q :=
    s.render_eq_of_looksLike (.of_pixels hwidth hheight htime h)
  refine ⟨hpixels, fun hcolumns hrows hbrightness => hpixels fun x hx y hy => ?_⟩
  exact Picture.pixel?_eq_of_brightness hwidth hheight hcolumns hrows hx hy (hbrightness x hx y hy)

open scoped Platform in
theorem render_ignores_padding_square :
    ({} : Settings).render ⟨⟨#[10, 20, 30, 40]⟩, 2, 2, 2, none, by decide, by decide, by decide,
        by decide⟩ =
      ({} : Settings).render ⟨⟨#[10, 20, 255, 30, 40, 255]⟩, 2, 2, 3, none, by decide, by decide,
        by decide, by decide⟩ ∧
    ({} : Settings).render ⟨⟨#[10, 20, 30, 40]⟩, 2, 2, 2, none, by decide, by decide, by decide,
        by decide⟩ =
      ({} : Settings).render ⟨⟨#[10, 20, 30, 40, 255]⟩, 2, 2, 2, none, by decide, by decide,
        by decide, by decide⟩ := by
  constructor
  · refine (render_ignores_padding {} _ _ ?_ ?_ ?_).1 ?_
    · rfl
    · rfl
    · rfl
    · decide
  · refine (render_ignores_padding {} _ _ ?_ ?_ ?_).2 ?_ ?_ ?_
    · rfl
    · rfl
    · rfl
    · decide
    · decide
    · decide +kernel

end Settings

end VectorDisplay
