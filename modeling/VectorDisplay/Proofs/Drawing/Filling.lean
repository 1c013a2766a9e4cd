import VectorDisplay.Platform
import VectorDisplay.Proofs.Drawing.Path
import VectorDisplay.Proofs.Sweep
set_option autoImplicit false

namespace VectorDisplay

def Report.path (r : Report) (before after : Buffer) : List Sample :=
  (after.toList.drop before.size).take r.pathSamples

/-- A buffer before and after a frame was drawn into it. -/
structure Filled (before after : Buffer) (park : Place) (r : Report) : Prop where
  capacity_eq : after.capacity = before.capacity
  full : after.isFull = true
  kept : after.toList.take before.size = before.toList
  accounted : r.pathSamples + r.fillSamples = before.remaining
  parked : after.toList.drop (before.size + r.pathSamples) =
    List.replicate r.fillSamples (.ofPlace park .off)
  intensity : ∀ s ∈ after.toList.drop before.size, s.intensity = 0 ∨ s.intensity = 255

theorem Sample.intensity_ofPlace (place : Place) (beam : Beam) :
    (ofPlace place beam).intensity = 0 ∨ (ofPlace place beam).intensity = 255 := by
  cases beam
  · exact .inl rfl
  · exact .inr rfl

theorem Batch.intensity_of_mem_stream {batches : List Batch} {start : Nat} {s : Sample}
    (h : s ∈ stream batches start) : s.intensity = 0 ∨ s.intensity = 255 := by
  obtain ⟨b, -, i, rfl⟩ := exists_of_mem_stream h
  exact Sample.intensity_ofPlace _ b.beam

theorem Batch.isLit_of_mem_stream {batches : List Batch} {start : Nat} {s : Sample}
    (hon : ∀ b ∈ batches, b.beam = .on) (h : s ∈ stream batches start) : s.isLit = true := by
  obtain ⟨b, hb, i, rfl⟩ := exists_of_mem_stream h
  rw [sample, hon b hb]
  rfl

namespace Filled

variable {before after : Buffer} {park : Place} {r : Report} {path : List Sample}

theorem path_eq (hlist : after.toList = before.toList ++
      (path ++ List.replicate r.fillSamples (.ofPlace park .off)))
    (hcount : r.pathSamples = path.length) : r.path before after = path := by
  rw [Report.path, hlist, List.drop_left' before.length_toList, hcount, List.take_left]

theorem of_toList (hlist : after.toList = before.toList ++
      (path ++ List.replicate r.fillSamples (.ofPlace park .off)))
    (hcount : r.pathSamples = path.length) (hcapacity : after.capacity = before.capacity)
    (hfull : after.isFull = true) (hpath : ∀ s ∈ path, s.intensity = 0 ∨ s.intensity = 255) :
    Filled before after park r where
  capacity_eq := hcapacity
  full := hfull
  kept := by rw [hlist, List.take_left' before.length_toList]
  accounted := by
    have hsize : after.size = after.capacity := of_decide_eq_true hfull
    have hlen := congrArg List.length hlist
    have := before.size_add_remaining
    simp only [Buffer.length_toList, List.length_append, List.length_replicate] at hlen
    omega
  parked := by
    rw [hlist, hcount, ← List.append_assoc]
    exact List.drop_left' (by simp)
  intensity := by
    intro s hs
    rw [hlist, List.drop_left' before.length_toList] at hs
    rcases List.mem_append.1 hs with hs | hs
    · exact hpath s hs
    · rw [List.eq_of_mem_replicate hs]
      exact Sample.intensity_ofPlace park .off

end Filled

theorem Emission.beam_points {α : Type} [Amount α] {scale : α} {brightness : Point → α}
    {variants : Point → Variants} {c : Contour} {carry : α} {b : Batch}
    (h : b ∈ (points scale brightness variants c carry).1) : b.beam = .on := by
  induction c generalizing carry with
  | nil => simp [points] at h
  | cons p rest ih =>
    simp only [points, List.mem_cons] at h
    rcases h with rfl | h
    · rfl
    · exact ih h

theorem Emission.beam_legs {α : Type} [Amount α] {scale speed dark : α} {brightness : Point → α}
    {variants : Point → Variants} {ls : List (Leg α)} {carry : α} {b : Batch}
    (hspeed : Amount.positive speed = false)
    (h : b ∈ legs scale speed dark brightness variants ls carry) : b.beam = .on := by
  induction ls generalizing carry with
  | nil => simp [legs] at h
  | cons l rest ih =>
    rcases List.mem_append.1 h with h | h
    · split at h
      · simp at h
      · rw [hspeed] at h
        exact beam_points h
    · exact ih h

theorem ContourStyle.filled_of_draw [Hypot] {style : ContourStyle} {p : Picture}
    {contours : List Contour} {before after : Buffer} {r : Report}
    (h : style.draw p contours before = .ok (r, after)) :
    Filled before after style.park r ∧
      (¬ 0.0 < style.speed → ∀ s ∈ r.path before after, s.isLit = true) := by
  obtain ⟨plan, path, hplan, hpath, hlist, hcount⟩ := toList_draw h
  obtain ⟨_, d, -, hd, hafter, -⟩ := draw_eq_ok h
  have hmem (s : Sample) (hs : s ∈ path) :
      s ∈ style.emission p plan before.remaining before.size :=
    List.mem_of_mem_take (hpath ▸ hs)
  have hcapacity : after.capacity = before.capacity := by
    rw [hafter, Buffer.capacity_fill, (Plan.draw_eq_ok hd).2]
  have hfull : after.isFull = true := by rw [hafter, Buffer.isFull_fill]
  refine ⟨.of_toList hlist hcount hcapacity hfull ?_, ?_⟩
  · intro s hs
    have := hmem s hs
    unfold ContourStyle.emission Plan.emission at this
    split at this
    · exact Batch.intensity_of_mem_stream this
    · simp at this
  · intro hspeed s hs
    rw [Filled.path_eq hlist hcount] at hs
    have := hmem s hs
    unfold ContourStyle.emission Plan.emission at this
    split at this
    · exact Batch.isLit_of_mem_stream
        (fun b hb => Emission.beam_legs (decide_eq_false hspeed) hb) this
    · simp at this

theorem SweepStyle.filled_of_draw {style : SweepStyle} {p : Picture} {before : Buffer}
    {swept : Swept} (h : style.draw p before = .ok swept) :
    Filled before swept.buffer style.park swept.report ∧
      ∀ s ∈ swept.report.path before swept.buffer, s.isLit = true := by
  obtain ⟨drawn, cut, hdraw, -, -, hafter, hreport⟩ := draw_eq_ok h
  have hlaid := laid_drawFrom (Nat.le_refl _) hdraw
  have hcount : swept.report.pathSamples = (List.take before.remaining (Batch.stream
      ((List.range' (style.size - style.size) style.size).map
        (style.batch p (style.total p) before.remaining)) before.size)).length := by
    have := congrArg List.length hlaid.toList_eq
    simp only [List.length_append, Buffer.length_toList] at this
    rw [hreport]
    dsimp only
    omega
  have hlist : swept.buffer.toList = before.toList ++ (List.take before.remaining (Batch.stream
      ((List.range' (style.size - style.size) style.size).map
        (style.batch p (style.total p) before.remaining)) before.size) ++
      List.replicate swept.report.fillSamples (.ofPlace style.park .off)) := by
    rw [hafter, Buffer.toList_fill, hlaid.toList_eq, hreport, List.append_assoc]
  have hcapacity : swept.buffer.capacity = before.capacity := by
    rw [hafter, Buffer.capacity_fill, hlaid.capacity_eq]
  have hfull : swept.buffer.isFull = true := by rw [hafter, Buffer.isFull_fill]
  refine ⟨.of_toList hlist hcount hcapacity hfull ?_, ?_⟩
  · intro s hs
    exact Batch.intensity_of_mem_stream (List.mem_of_mem_take hs)
  · intro s hs
    rw [Filled.path_eq hlist hcount] at hs
    refine Batch.isLit_of_mem_stream (fun b hb => ?_) (List.mem_of_mem_take hs)
    obtain ⟨k, -, rfl⟩ := List.mem_map.1 hb
    rfl

/-- Drawing keeps what was there and fills the buffer to its last place. -/
theorem filled_by_drawing [Hypot] (p : Picture) (before : Buffer) :
    (∀ (style : ContourStyle) (contours : List Contour) (after : Buffer) (r : Report),
      style.draw p contours before = .ok (r, after) →
        Filled before after style.park r ∧
          (¬ 0.0 < style.speed → ∀ s ∈ r.path before after, s.isLit = true)) ∧
    ∀ style : SweepStyle,
      max style.columns.toNat 1 * max style.rows.toNat 1 * 2 ^ 24 < 2 ^ 64 →
        ∃ swept, style.draw p before = .ok swept ∧
          Filled before swept.buffer style.park swept.report ∧
          ∀ s ∈ swept.report.path before swept.buffer, s.isLit = true := by
  constructor
  · intro style contours after r h
    exact ContourStyle.filled_of_draw h
  · intro style hsize
    obtain ⟨swept, h⟩ := SweepStyle.exists_draw_eq_ok (p := p) hsize before
    exact ⟨swept, h, SweepStyle.filled_of_draw h⟩

open scoped Platform in
theorem filled_by_drawing_pixel :
    (∃ after r, ({ minLength := 1, park := (3, 4) } : ContourStyle).draw (.ofPixel 64) [[⟨0, 0⟩]]
        (.holding #[⟨9, 9, 9⟩] 3) = .ok (r, after) ∧
      Filled (.holding #[⟨9, 9, 9⟩] 3) after (3, 4) r ∧
      ∀ s ∈ r.path (.holding #[⟨9, 9, 9⟩] 3) after, s.isLit = true) ∧
    ∃ swept, ({ columns := 2, rows := 1 } : SweepStyle).draw (.ofPixel 64)
        (.holding #[⟨9, 9, 9⟩] 3) = .ok swept ∧
      Filled (.holding #[⟨9, 9, 9⟩] 3) swept.buffer (0, 0) swept.report := by
  have hok : (({ minLength := 1, park := (3, 4) } : ContourStyle).draw (.ofPixel 64) [[⟨0, 0⟩]]
      (.holding #[⟨9, 9, 9⟩] 3)).isOk = true := by decide +kernel
  obtain ⟨⟨r, after⟩, h⟩ := exists_of_isOk hok
  obtain ⟨hcontour, hsweep⟩ := filled_by_drawing (.ofPixel 64) (.holding #[⟨9, 9, 9⟩] 3)
  obtain ⟨hfilled, hlit⟩ := hcontour _ _ after r h
  obtain ⟨swept, hswept, hfilled', -⟩ := hsweep { columns := 2, rows := 1 } (by decide)
  exact ⟨⟨after, r, h, hfilled, hlit (by decide +kernel)⟩, swept, hswept, hfilled'⟩

end VectorDisplay
