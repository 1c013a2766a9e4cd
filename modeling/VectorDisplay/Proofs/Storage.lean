import VectorDisplay.Processor
import VectorDisplay.Proofs.Render
/-!
Storage that is larger than its buffer. Drawing sees the samples and the capacity of a buffer and
never its room, so a frame drawn into old storage of any size is the frame drawn into fresh storage.
Main statement: whatever a processor of some settings holds in its pool, it renders what the settings
alone render.
-/

set_option autoImplicit false

namespace VectorDisplay

namespace Buffer

/-- The buffer in storage with more room. -/
def roomier (b : Buffer) (extra : Nat) : Buffer :=
  { b with
    room := b.room + extra
    capacity_le_room := Nat.le_trans b.capacity_le_room (Nat.le_add_right _ _) }

variable (b : Buffer) (extra : Nat)

@[simp] theorem samples_roomier : (b.roomier extra).samples = b.samples := rfl

@[simp] theorem size_roomier : (b.roomier extra).size = b.size := rfl

@[simp] theorem remaining_roomier : (b.roomier extra).remaining = b.remaining := rfl

theorem append_roomier (count : Nat) (f : Nat → Sample) :
    (b.roomier extra).append count f =
      ((b.append count f).1, (b.append count f).2.roomier extra) := rfl

/-- Where fresh storage is granted, old storage serves as well. -/
theorem ofStorage_of_ofCapacity [Memory] {capacity : Nat} {b : Buffer}
    (hok : ofCapacity capacity = .ok b) (s : Storage) :
    ∃ extra, ofStorage s capacity = .ok (b.roomier extra) := by
  unfold ofCapacity ofStorage at hok
  split at hok
  · next hle =>
    have hzero : capacity = 0 := by simpa [Storage.empty] using hle
    subst hzero
    cases hok
    exact ⟨s.room, by simp [ofStorage, roomier, Storage.empty]⟩
  · split at hok
    · cases hok
    · next hrefusal =>
      cases hok
      by_cases hle : capacity ≤ s.room
      · exact ⟨s.room - capacity, by simp [ofStorage, roomier, hle]⟩
      · exact ⟨0, by simp [ofStorage, roomier, hle, hrefusal]⟩

theorem finish_roomier {b : Buffer} {s : Storage} (h : b.finish = .ok s) (extra : Nat) :
    ∃ roomy, (b.roomier extra).finish = .ok roomy ∧ roomy.samples = s.samples := by
  obtain ⟨hfull, rfl⟩ := finish_eq_ok_iff.1 h
  exact ⟨_, finish_eq_ok_iff.2 ⟨hfull, rfl⟩, rfl⟩

end Buffer

section Drawing

variable (extra : Nat)

theorem Batch.layAll_roomier (batches : List Batch) (buffer : Buffer) :
    layAll batches (buffer.roomier extra) =
      ((layAll batches buffer).1.roomier extra, (layAll batches buffer).2) := by
  induction batches generalizing buffer with
  | nil => rfl
  | cons b rest ih =>
    have hlay : b.lay (buffer.roomier extra) =
        ((b.lay buffer).1.roomier extra, (b.lay buffer).2) := rfl
    unfold layAll
    rw [hlay]
    obtain ⟨after, cut⟩ := b.lay buffer
    cases cut with
    | some cut => rfl
    | none => exact ih after

section Amounts

variable {α : Type} [Amount α] {variants : Point → Variants}

theorem Stroke.drawAll_roomier (strokes : List (Stroke α)) (budget : Budget α) (buffer : Buffer) :
    drawAll variants strokes budget (buffer.roomier extra) =
      (drawAll variants strokes budget buffer).map
        fun d => (d.1, d.2.1.roomier extra, d.2.2) := by
  induction strokes generalizing budget buffer with
  | nil => rfl
  | cons s rest ih =>
    unfold drawAll
    cases budget.grant s.demand with
    | error fault => rfl
    | ok granted =>
      obtain ⟨count, budget⟩ := granted
      dsimp only
      rw [Batch.layAll_roomier]
      obtain ⟨after, cut⟩ := Batch.layAll (s.batches variants count) buffer
      cases cut with
      | some cut => rfl
      | none => exact ih budget after

theorem drawLegs_roomier (legs : List (List (Stroke α))) (budget : Budget α) (buffer : Buffer)
    (drawn : Nat) :
    drawLegs variants legs budget (buffer.roomier extra) drawn =
      (drawLegs variants legs budget buffer drawn).map
        fun d => (d.1.roomier extra, d.2.1, d.2.2) := by
  induction legs generalizing budget buffer drawn with
  | nil => rfl
  | cons strokes rest ih =>
    unfold drawLegs
    rw [Stroke.drawAll_roomier]
    cases Stroke.drawAll variants strokes budget buffer with
    | error fault => rfl
    | ok d =>
      obtain ⟨budget, after, cut⟩ := d
      cases cut with
      | some cut => rfl
      | none => exact ih budget after (drawn + 1)

theorem Plan.draw_roomier (plan : Plan α) (speed dark : α) (brightness : Point → α)
    (buffer : Buffer) :
    plan.draw speed dark brightness variants (buffer.roomier extra) =
      (plan.draw speed dark brightness variants buffer).map
        fun d => { d with buffer := d.buffer.roomier extra } := by
  unfold Plan.draw
  rw [Buffer.remaining_roomier]
  cases Budget.ofTotal plan.total buffer.remaining with
  | none => rfl
  | some budget =>
    dsimp only
    rw [drawLegs_roomier]
    cases drawLegs variants (plan.legs.map (Leg.strokes speed dark brightness)) budget buffer 0 with
    | error fault => rfl
    | ok d => rfl

end Amounts

theorem ContourStyle.draw_roomier [Hypot] (style : ContourStyle) (p : Picture)
    (contours : List Contour) (buffer : Buffer) :
    style.draw p contours (buffer.roomier extra) =
      (style.draw p contours buffer).map fun d => (d.1, d.2.roomier extra) := by
  unfold ContourStyle.draw
  dsimp only
  cases style.ordering.arrange (style.keep contours) with
  | error fault => rfl
  | ok arranged =>
    dsimp only
    cases Plan.ofContours Point.distance style.speed
        (fun pt => Float.ofNat (p.brightness pt.x pt.y).toNat) arranged with
    | error fault => rfl
    | ok plan =>
      dsimp only
      rw [Plan.draw_roomier]
      cases plan.draw style.speed (clampUnit style.dark)
          (fun pt => Float.ofNat (p.brightness pt.x pt.y).toNat)
          (Projection.variants ⟨p.width, p.height, style.dither⟩) buffer with
      | error fault => rfl
      | ok d => rfl

theorem SweepStyle.drawFrom_roomier (style : SweepStyle) (p : Picture) (total capacity left : Nat)
    (buffer : Buffer) :
    style.drawFrom p total capacity left (buffer.roomier extra) =
      ((style.drawFrom p total capacity left buffer).1.roomier extra,
        (style.drawFrom p total capacity left buffer).2) := by
  induction left generalizing buffer with
  | zero => rfl
  | succ left ih =>
    unfold drawFrom
    dsimp only
    rw [Buffer.append_roomier]
    split
    · rfl
    · exact ih _

theorem SweepStyle.draw_roomier (style : SweepStyle) (p : Picture) (buffer : Buffer) :
    style.draw p (buffer.roomier extra) =
      (style.draw p buffer).map fun s => { s with buffer := s.buffer.roomier extra } := by
  unfold SweepStyle.draw
  cases word (style.total p) with
  | error fault => rfl
  | ok total =>
    dsimp only
    rw [Buffer.remaining_roomier, drawFrom_roomier]
    rfl

theorem Settings.draw_roomier [Hypot] (s : Settings) (p : Picture) (buffer : Buffer) :
    s.generator.draw p (buffer.roomier extra) =
      (s.generator.draw p buffer).map fun d => { d with buffer := d.buffer.roomier extra } := by
  unfold Settings.generator
  cases s.mode with
  | contour =>
    dsimp only [Generator.contour, Generator.ofContours]
    cases Tracer.borders s.edges s.threshold p.workingCopy with
    | error fault => rfl
    | ok traced =>
      dsimp only
      rw [ContourStyle.draw_roomier]
      cases s.contourStyle.draw p traced.2 buffer with
      | error fault => rfl
      | ok d => rfl
  | raster =>
    dsimp only [Generator.sweep]
    rw [SweepStyle.draw_roomier]
    cases s.sweepStyle.draw p buffer with
    | error fault => rfl
    | ok swept => rfl

end Drawing

/-- Frames that differ in nothing but the room of their storage. -/
structure Frame.Alike (f g : Frame) : Prop where
  samples_eq : f.samples = g.samples
  width_eq : f.width = g.width
  height_eq : f.height = g.height
  time_eq : f.time = g.time
  report_eq : f.report = g.report

theorem Frame.Alike.bytes_eq {f g : Frame} (h : f.Alike g) : f.bytes = g.bytes := by
  rw [bytes, bytes, h.samples_eq]

theorem Pool.exists_acquire_eq [Memory] (p : Pool) (capacity : Nat) :
    ∃ storage pool, p.acquire capacity = (Buffer.ofStorage storage capacity, pool) := by
  unfold acquire
  split
  · exact ⟨_, _, rfl⟩
  · exact ⟨_, _, rfl⟩

namespace Processor

variable [Hypot]

/-- A processor that draws under some settings, with anything in its pool. -/
structure Serves (p : Processor) (s : Settings) : Prop where
  generator_eq : p.generator = s.generator
  output_eq : p.output = ⟨s.width, s.height⟩

theorem serves_ofSettings (s : Settings) : (ofSettings s).Serves s := ⟨rfl, rfl⟩

theorem Serves.recycle {p : Processor} {s : Settings} (h : p.Serves s) (storage : Storage) :
    (p.recycle storage).Serves s := ⟨h.generator_eq, h.output_eq⟩

variable [Memory] {p : Processor} {s : Settings} {picture : Picture} {frame : Frame} {log : Log}

theorem Serves.exists_render_eq_ok (hp : p.Serves s) (h : s.render picture = .ok ⟨.ok frame, log⟩) :
    ∃ drawn p', p.render picture = .ok ⟨.ok drawn, p', log⟩ ∧ drawn.Alike frame ∧ p'.Serves s := by
  obtain ⟨-, fresh, ⟨result, buffer, _⟩, report, full, hfresh, hdraw, hresult, hfinish, rfl,
    rfl⟩ := Settings.render_eq_ok h
  obtain ⟨storage, pool, hacquire⟩ := p.pool.exists_acquire_eq s.capacity
  obtain ⟨extra, hstorage⟩ := Buffer.ofStorage_of_ofCapacity hfresh storage
  obtain ⟨roomy, hroomy, hsamples⟩ := Buffer.finish_roomier hfinish extra
  have harea : p.output.area = s.capacity := by rw [hp.output_eq]; rfl
  have hdrawn : p.generator.draw picture (fresh.roomier extra) =
      .ok ⟨result, buffer.roomier extra, log⟩ := by
    rw [hp.generator_eq, s.draw_roomier, hdraw]
    rfl
  dsimp only at hresult
  subst hresult
  unfold render
  rw [harea, hacquire, hstorage]
  simp only [hdrawn, hroomy, bind, Except.bind, pure, Except.pure]
  refine ⟨⟨roomy, p.output.width, p.output.height, picture.time, report⟩, _, rfl,
    ⟨hsamples, ?_, ?_, rfl, rfl⟩, hp.generator_eq, hp.output_eq⟩
  · rw [hp.output_eq]
  · rw [hp.output_eq]

theorem Serves.render_eq_error (hp : p.Serves s) {fresh : Buffer} {fault : Fault}
    (hfresh : Buffer.ofCapacity s.capacity = .ok fresh)
    (h : s.generator.draw picture fresh = .error fault) : p.render picture = .error fault := by
  obtain ⟨storage, pool, hacquire⟩ := p.pool.exists_acquire_eq s.capacity
  obtain ⟨extra, hstorage⟩ := Buffer.ofStorage_of_ofCapacity hfresh storage
  have harea : p.output.area = s.capacity := by rw [hp.output_eq]; rfl
  have hdrawn : p.generator.draw picture (fresh.roomier extra) = .error fault := by
    rw [hp.generator_eq, s.draw_roomier, h]
    rfl
  unfold render
  rw [harea, hacquire, hstorage]
  simp only [hdrawn]

theorem Serves.exists_process_eq_ok (hp : p.Serves s)
    (h : s.render picture = .ok ⟨.ok frame, log⟩) :
    ∃ drawn p', p.process picture = .ok ⟨.ok (some drawn), p', log⟩ ∧
      drawn.Alike frame ∧ p'.Serves s := by
  obtain ⟨drawn, p', hrender, halike, hserves⟩ := hp.exists_render_eq_ok h
  exact ⟨drawn, p', by simp [process, hrender], halike, hserves⟩

end Processor

end VectorDisplay
