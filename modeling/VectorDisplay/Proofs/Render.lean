import VectorDisplay.Proofs.Drawing.Filling
import VectorDisplay.Render
set_option autoImplicit false

namespace VectorDisplay

namespace Buffer

theorem finish_eq_ok_iff {b : Buffer} {s : Storage} :
    b.finish = .ok s ↔ b.isFull = true ∧ s = b.toStorage := by
  unfold finish
  split
  · next hfull => simp [hfull, eq_comm]
  · next hfull => simp [hfull]

variable [Memory]

theorem ofStorage_eq_ok {s : Storage} {capacity : Nat} {b : Buffer}
    (hok : ofStorage s capacity = .ok b) : b.capacity = capacity ∧ b.samples = #[] := by
  unfold ofStorage at hok
  split at hok
  · cases hok
    exact ⟨rfl, rfl⟩
  · split at hok
    · cases hok
    · cases hok
      exact ⟨rfl, rfl⟩

theorem ofCapacity_eq_ok {capacity : Nat} {b : Buffer} (hok : ofCapacity capacity = .ok b) :
    b.capacity = capacity ∧ b.samples = #[] := ofStorage_eq_ok hok

theorem exists_ofCapacity {capacity : Nat} (h : Storage.refusal capacity = none) :
    ∃ b, ofCapacity capacity = .ok b ∧ b.remaining = capacity := by
  unfold ofCapacity ofStorage
  split
  · exact ⟨_, rfl, rfl⟩
  · rw [h]
    exact ⟨_, rfl, rfl⟩

theorem ofCapacity_eq_error {capacity : Nat} (hpos : 0 < capacity) {reason : String}
    (h : Storage.refusal capacity = some reason) :
    ∃ error, ofCapacity capacity = .error error ∧
      error.cause = .resource "sample_buffer" reason := by
  have hempty : ¬ capacity ≤ Storage.empty.room := Nat.not_le_of_gt hpos
  unfold ofCapacity ofStorage
  rw [dif_neg hempty, h]
  exact ⟨_, rfl, rfl⟩

end Buffer

namespace Settings

variable [Hypot] {s : Settings} {p : Picture}

theorem filled_of_draw {buffer : Buffer} {drawn : Drawn}
    (h : s.generator.draw p buffer = .ok drawn) :
    ∃ report, drawn.result = .ok report ∧ Filled buffer drawn.buffer s.park report := by
  unfold generator at h
  cases hmode : s.mode with
  | contour =>
    simp only [hmode, Generator.contour, Generator.ofContours] at h
    split at h
    · cases h
    · split at h
      · cases h
      · next report after hdraw =>
        cases h
        exact ⟨report, rfl, (ContourStyle.filled_of_draw hdraw).1⟩
  | raster =>
    simp only [hmode, Generator.sweep] at h
    split at h
    · cases h
    · next swept hdraw =>
      cases h
      exact ⟨swept.report, rfl, (SweepStyle.filled_of_draw hdraw).1⟩

variable [Memory]

theorem render_eq_ok {frame : Frame} {log : Log} (h : s.render p = .ok ⟨.ok frame, log⟩) :
    s.fault? = none ∧ ∃ fresh drawn report storage,
      Buffer.ofCapacity s.capacity = .ok fresh ∧ s.generator.draw p fresh = .ok drawn ∧
      drawn.result = .ok report ∧ drawn.buffer.finish = .ok storage ∧
      frame = ⟨storage, s.width, s.height, p.time, report⟩ ∧ log = drawn.log := by
  unfold render at h
  split at h
  · cases h
  · next hvalid =>
    refine ⟨hvalid, ?_⟩
    split at h
    · cases h
    · next fresh hfresh =>
      split at h
      · cases h
      · next drawn hdraw =>
        cases hresult : drawn.result with
        | error error =>
          rw [hresult] at h
          cases h
        | ok report =>
          cases hfinish : drawn.buffer.finish with
          | error error =>
            rw [hresult, hfinish] at h
            cases h
          | ok storage =>
            rw [hresult, hfinish] at h
            cases h
            exact ⟨fresh, drawn, report, storage, hfresh, hdraw, hresult, hfinish, rfl, rfl⟩

theorem exists_render_eq_ok (hvalid : s.fault? = none) {fresh : Buffer} {drawn : Drawn}
    (hfresh : Buffer.ofCapacity s.capacity = .ok fresh)
    (hdraw : s.generator.draw p fresh = .ok drawn) :
    ∃ frame, s.render p = .ok ⟨.ok frame, drawn.log⟩ := by
  obtain ⟨report, hresult, hfilled⟩ := filled_of_draw hdraw
  have hfinish := Buffer.finish_eq_ok_iff.2 ⟨hfilled.full, rfl⟩
  refine ⟨⟨drawn.buffer.toStorage, s.width, s.height, p.time, report⟩, ?_⟩
  unfold render
  simp only [hvalid, hfresh, hdraw, hresult, hfinish]
  rfl

theorem size_samples_of_render {frame : Frame} {log : Log} (h : s.render p = .ok ⟨.ok frame, log⟩) :
    frame.samples.size = s.capacity := by
  obtain ⟨-, fresh, drawn, report, storage, hfresh, hdraw, -, hfinish, rfl, -⟩ := render_eq_ok h
  obtain ⟨_, -, hfilled⟩ := filled_of_draw hdraw
  obtain ⟨hfull, rfl⟩ := Buffer.finish_eq_ok_iff.1 hfinish
  have hsize : drawn.buffer.size = drawn.buffer.capacity := of_decide_eq_true hfull
  have hcapacity := (Buffer.ofCapacity_eq_ok hfresh).1
  exact hsize.trans (hfilled.capacity_eq.trans hcapacity)

end Settings

end VectorDisplay
