import VectorDisplay.Platform
import VectorDisplay.Proofs.Generator
import VectorDisplay.Proofs.Pool
/-!
What a processor makes of a picture, with a generator of any kind. Main statement: a processor hands
out a full frame, or it hands out none and gives the storage back; and it is told exactly which of
the two happens, and with which error.
-/

set_option autoImplicit false

namespace VectorDisplay

/-- The frame at hand is lost to an error, and the next one may succeed. -/
def Error.LosesFrame (e : Error) : Prop :=
  (∃ name reason, e.cause = .resource name reason) ∨
    ∃ total written, e.cause = .capacity total written

theorem Error.losesFrame_iff (e : Error) : e.losesFrame = true ↔ e.LosesFrame := by
  unfold losesFrame LosesFrame
  cases e.cause <;> simp [Cause.losesFrame]

theorem Buffer.finish_of_short {b : Buffer} (h : b.isFull = false) :
    b.finish = .error (.of (.capacity b.capacity b.size)) := by
  simp [finish, h]

theorem Buffer.size_lt_of_not_full {b : Buffer} (h : b.isFull = false) : b.size < b.capacity :=
  Nat.lt_of_le_of_ne b.size_le_capacity (of_decide_eq_false h)

namespace Pool

/-- The pool without its oldest idle storage. -/
def lent (p : Pool) : Pool := { p with idle := p.idle.tail }

/-- A buffer costs a pool its oldest idle storage, whether the buffer is granted or refused. -/
theorem acquire_snd [Memory] (p : Pool) (capacity : Nat) : (p.acquire capacity).2 = p.lent := by
  obtain ⟨idle, limit⟩ := p
  cases idle <;> rfl

structure TakenBack (p : Pool) (storage : Storage) (after : Pool) : Prop where
  limit_eq : after.limit = p.limit
  kept : storage.room ≠ 0 → p.idle.length < p.limit → after.idle = p.idle ++ [storage]
  let_go : storage.room = 0 ∨ p.limit ≤ p.idle.length → after.idle = p.idle

theorem takenBack_iff {p after : Pool} {storage : Storage} :
    p.TakenBack storage after ↔ after = p.recycle storage := by
  unfold recycle
  constructor
  · rintro ⟨hlimit, hkept, hgone⟩
    obtain ⟨idle, limit⟩ := after
    obtain rfl : limit = p.limit := hlimit
    split
    · next hroom => rw [show idle = p.idle from hgone (.inl hroom)]
    · next hroom =>
      split
      · next hless => rw [show idle = p.idle ++ [storage] from hkept hroom hless]
      · next hfull => rw [show idle = p.idle from hgone (.inr (Nat.le_of_not_lt hfull))]
  · rintro rfl
    split
    · next hroom => exact ⟨rfl, fun h => absurd hroom h, fun _ => rfl⟩
    · next hroom =>
      split
      · next hless =>
        exact ⟨rfl, fun _ _ => rfl, fun h => absurd hless (h.resolve_left hroom).not_gt⟩
      · next hfull => exact ⟨rfl, fun _ h => absurd h hfull, fun _ => rfl⟩

end Pool

namespace Processor

variable {p after : Processor} {picture : Picture} {buffer : Buffer} {drawn : Drawn}
  {report : Report} {frame : Frame} {error : Error} {fault : Fault}

structure Whole (p : Processor) (picture : Picture) (drawn : Drawn) (frame : Frame)
    (after : Processor) : Prop where
  report_eq : drawn.result = .ok frame.report
  full : drawn.buffer.isFull = true
  storage_eq : frame.storage = drawn.buffer.toStorage
  size_eq : frame.samples.size = p.output.width.toNat * p.output.height.toNat
  extent_eq : (frame.width, frame.height) = (p.output.width, p.output.height)
  time_eq : frame.time = picture.time
  after_eq : after = { p with pool := p.pool.lent, frames := p.frames + 1 }

/-- A drawing came to nothing: no frame is counted, and the storage goes back to the pool. -/
structure GaveBack (p : Processor) (buffer : Buffer) (drawn : Drawn) (after : Processor) :
    Prop where
  room_eq : drawn.buffer.toStorage.room = buffer.room
  takenBack : p.pool.lent.TakenBack drawn.buffer.toStorage after.pool
  after_eq : after = { p with pool := after.pool }

theorem GaveBack.eq (h : p.GaveBack buffer drawn after) :
    after = { p with pool := p.pool.lent.recycle drawn.buffer.toStorage } := by
  rw [h.after_eq, Pool.takenBack_iff.1 h.takenBack]

variable [Memory]

/-- A buffer that a processor got from its pool, and what its generator made of it. -/
structure Drew (p : Processor) (picture : Picture) (buffer : Buffer) (drawn : Drawn) : Prop where
  acquire_eq : (p.pool.acquire p.output.area).1 = .ok buffer
  draw_eq : p.generator.draw picture buffer = .ok drawn

/-- Why a processor hands out no frame, and what is left of it then. -/
inductive Unmade (p : Processor) (picture : Picture) : Error → Processor → Prop where
  | refused {error : Error} (hacquire : (p.pool.acquire p.output.area).1 = .error error) :
      Unmade p picture error { p with pool := p.pool.lent }
  | failed {buffer : Buffer} {drawn : Drawn} {error : Error} {after : Processor}
      (hdrew : p.Drew picture buffer drawn) (hresult : drawn.result = .error error)
      (hback : p.GaveBack buffer drawn after) : Unmade p picture error after
  | short {buffer : Buffer} {drawn : Drawn} {report : Report} {after : Processor}
      (hdrew : p.Drew picture buffer drawn) (hresult : drawn.result = .ok report)
      (hshort : drawn.buffer.size < p.output.width.toNat * p.output.height.toNat)
      (hback : p.GaveBack buffer drawn after) :
      Unmade p picture (.of (.capacity (p.output.width.toNat * p.output.height.toNat)
        drawn.buffer.size)) after

theorem Drew.capacity_eq (h : p.Drew picture buffer drawn) (happends : p.generator.Appends) :
    drawn.buffer.capacity = p.output.width.toNat * p.output.height.toNat := by
  rw [(happends picture buffer drawn h.draw_eq).capacity_eq]
  exact (Pool.acquire_eq_ok h.acquire_eq).1

theorem Drew.gaveBack (h : p.Drew picture buffer drawn) (happends : p.generator.Appends) :
    p.GaveBack buffer drawn { p with pool := p.pool.lent.recycle drawn.buffer.toStorage } where
  room_eq := (happends picture buffer drawn h.draw_eq).room_eq
  takenBack := Pool.takenBack_iff.2 rfl
  after_eq := rfl

section Render

def frameOf (p : Processor) (picture : Picture) (drawn : Drawn) (report : Report) : Frame where
  storage := drawn.buffer.toStorage
  width := p.output.width
  height := p.output.height
  time := picture.time
  report := report

theorem render_of_refused (h : (p.pool.acquire p.output.area).1 = .error error) :
    p.render picture = .ok ⟨.error error, { p with pool := p.pool.lent }, []⟩ := by
  have hacquire : p.pool.acquire p.output.area = (.error error, p.pool.lent) :=
    Prod.ext h (p.pool.acquire_snd _)
  simp only [render, hacquire]

theorem acquire_of_ok (h : (p.pool.acquire p.output.area).1 = .ok buffer) :
    p.pool.acquire p.output.area = (.ok buffer, p.pool.lent) :=
  Prod.ext h (p.pool.acquire_snd _)

theorem render_of_fault (h : (p.pool.acquire p.output.area).1 = .ok buffer)
    (hdraw : p.generator.draw picture buffer = .error fault) : p.render picture = .error fault := by
  simp only [render, acquire_of_ok h, hdraw]

theorem Drew.render_of_full (h : p.Drew picture buffer drawn) (hresult : drawn.result = .ok report)
    (hfull : drawn.buffer.isFull = true) :
    p.render picture = .ok ⟨.ok (p.frameOf picture drawn report),
      { p with pool := p.pool.lent, frames := p.frames + 1 }, drawn.log⟩ := by
  have hfinish := Buffer.finish_eq_ok_iff.2 ⟨hfull, rfl⟩
  simp only [render, acquire_of_ok h.acquire_eq, h.draw_eq, hresult, hfinish, bind, Except.bind,
    pure, Except.pure]
  rfl

theorem Drew.render_of_failed (h : p.Drew picture buffer drawn)
    (hresult : drawn.result = .error error) :
    p.render picture = .ok ⟨.error error,
      { p with pool := p.pool.lent.recycle drawn.buffer.toStorage }, drawn.log⟩ := by
  simp only [render, acquire_of_ok h.acquire_eq, h.draw_eq, hresult, bind, Except.bind]
  rfl

theorem Drew.render_of_short (h : p.Drew picture buffer drawn) (hresult : drawn.result = .ok report)
    (hshort : drawn.buffer.isFull = false) :
    p.render picture = .ok ⟨.error (.of (.capacity drawn.buffer.capacity drawn.buffer.size)),
      { p with pool := p.pool.lent.recycle drawn.buffer.toStorage }, drawn.log⟩ := by
  simp only [render, acquire_of_ok h.acquire_eq, h.draw_eq, hresult, Buffer.finish_of_short hshort,
    bind, Except.bind]
  rfl

end Render

theorem Drew.render_of_whole (h : p.Drew picture buffer drawn)
    (hwhole : p.Whole picture drawn frame after) :
    p.render picture = .ok ⟨.ok frame, after, drawn.log⟩ := by
  obtain ⟨storage, width, height, time, report⟩ := frame
  obtain ⟨hreport, hfull, hstorage, -, hextent, htime, rfl⟩ := hwhole
  obtain ⟨rfl, rfl⟩ := Prod.mk.inj hextent
  obtain rfl : storage = drawn.buffer.toStorage := hstorage
  obtain rfl : time = picture.time := htime
  exact h.render_of_full hreport hfull

theorem Unmade.exists_render_eq (h : p.Unmade picture error after)
    (happends : p.generator.Appends) :
    ∃ log, p.render picture = .ok ⟨.error error, after, log⟩ := by
  cases h with
  | refused hacquire => exact ⟨_, render_of_refused hacquire⟩
  | failed hdrew hresult hback => exact ⟨_, hback.eq ▸ hdrew.render_of_failed hresult⟩
  | @short buffer drawn report _ hdrew hresult hless hback =>
    have hcapacity := hdrew.capacity_eq happends
    have hshort : drawn.buffer.isFull = false := by
      rw [← hcapacity] at hless
      exact decide_eq_false hless.ne
    have hrender := hdrew.render_of_short hresult hshort
    rw [hcapacity] at hrender
    exact ⟨_, hback.eq ▸ hrender⟩

/-- Rendering ends in a fault of the generator, in a full frame, or in an error without a frame. -/
theorem render_cases (happends : p.generator.Appends) (picture : Picture) :
    (∃ buffer fault, (p.pool.acquire p.output.area).1 = .ok buffer ∧
      p.generator.draw picture buffer = .error fault ∧ p.render picture = .error fault) ∨
    (∃ buffer drawn frame after, p.Drew picture buffer drawn ∧ p.Whole picture drawn frame after ∧
      p.render picture = .ok ⟨.ok frame, after, drawn.log⟩) ∨
    ∃ error after log, p.Unmade picture error after ∧
      p.render picture = .ok ⟨.error error, after, log⟩ := by
  cases hacquire : (p.pool.acquire p.output.area).1 with
  | error error => exact .inr (.inr ⟨_, _, _, .refused hacquire, render_of_refused hacquire⟩)
  | ok buffer =>
    cases hdraw : p.generator.draw picture buffer with
    | error fault => exact .inl ⟨buffer, fault, rfl, hdraw, render_of_fault hacquire hdraw⟩
    | ok drawn =>
      have hdrew : p.Drew picture buffer drawn := ⟨hacquire, hdraw⟩
      have hback := hdrew.gaveBack happends
      have hcapacity := hdrew.capacity_eq happends
      cases hresult : drawn.result with
      | error error =>
        exact .inr (.inr ⟨_, _, _, .failed hdrew hresult hback, hdrew.render_of_failed hresult⟩)
      | ok report =>
        cases hfull : drawn.buffer.isFull with
        | false =>
          have hless := Buffer.size_lt_of_not_full hfull
          have hrender := hdrew.render_of_short hresult hfull
          rw [hcapacity] at hless hrender
          exact .inr (.inr ⟨_, _, _, .short hdrew hresult hless hback, hrender⟩)
        | true =>
          have hsize : drawn.buffer.size = drawn.buffer.capacity := of_decide_eq_true hfull
          refine .inr (.inl ⟨buffer, drawn, p.frameOf picture drawn report, _, hdrew, ?_,
            hdrew.render_of_full hresult hfull⟩)
          exact ⟨hresult, hfull, rfl, hsize.trans hcapacity, rfl, rfl, rfl⟩

/-- What a processor makes of a picture: a full frame, or none and then nothing is lost but the
frame. -/
structure WholeOrNothing (p : Processor) (picture : Picture) : Prop where
  fault_iff {fault : Fault} : p.render picture = .error fault ↔
    ∃ buffer, (p.pool.acquire p.output.area).1 = .ok buffer ∧
      p.generator.draw picture buffer = .error fault
  frame_iff {frame : Frame} {after : Processor} :
    (∃ log, p.render picture = .ok ⟨.ok frame, after, log⟩) ↔
      ∃ buffer drawn, p.Drew picture buffer drawn ∧ p.Whole picture drawn frame after
  error_iff {error : Error} {after : Processor} :
    (∃ log, p.render picture = .ok ⟨.error error, after, log⟩) ↔ p.Unmade picture error after
  frames_eq {error : Error} {after : Processor} : p.Unmade picture error after →
    after.frames = p.frames
  made_iff {frame : Frame} {after : Processor} :
    (∃ log, p.process picture = .ok ⟨.ok (some frame), after, log⟩) ↔
      ∃ log, p.render picture = .ok ⟨.ok frame, after, log⟩
  lost_iff {after : Processor} :
    (∃ log, p.process picture = .ok ⟨.ok none, after, log⟩) ↔
      ∃ error, error.LosesFrame ∧ ∃ log, p.render picture = .ok ⟨.error error, after, log⟩
  passed_iff {error : Error} {after : Processor} :
    (∃ log, p.process picture = .ok ⟨.error error, after, log⟩) ↔
      ¬ error.LosesFrame ∧ ∃ log, p.render picture = .ok ⟨.error error, after, log⟩
  process_fault_iff {fault : Fault} :
    p.process picture = .error fault ↔ p.render picture = .error fault

theorem Unmade.frames_eq (h : p.Unmade picture error after) : after.frames = p.frames := by
  cases h with
  | refused _ => rfl
  | failed _ _ hback => rw [hback.after_eq]
  | short _ _ _ hback => rw [hback.after_eq]

section Process

variable (p : Processor) (picture : Picture)

theorem process_eq_some_iff : (∃ log, p.process picture = .ok ⟨.ok (some frame), after, log⟩) ↔
    ∃ log, p.render picture = .ok ⟨.ok frame, after, log⟩ := by
  unfold process
  rcases p.render picture with fault | ⟨error | made, state, log⟩
  · simp
  · by_cases hlost : error.losesFrame = true <;> simp [hlost]
  · simp

theorem process_eq_none_iff : (∃ log, p.process picture = .ok ⟨.ok none, after, log⟩) ↔
    ∃ error, error.LosesFrame ∧ ∃ log, p.render picture = .ok ⟨.error error, after, log⟩ := by
  simp only [← Error.losesFrame_iff]
  unfold process
  rcases p.render picture with fault | ⟨error | made, state, log⟩
  · simp
  · by_cases hlost : error.losesFrame = true <;> simp [hlost]
  · simp

theorem process_eq_error_iff : (∃ log, p.process picture = .ok ⟨.error error, after, log⟩) ↔
    ¬ error.LosesFrame ∧ ∃ log, p.render picture = .ok ⟨.error error, after, log⟩ := by
  rw [← Error.losesFrame_iff]
  unfold process
  rcases p.render picture with fault | ⟨refusal | made, state, log⟩
  · simp
  · constructor
    · rintro ⟨records, h⟩
      dsimp only at h
      split at h
      · cases h
      · next hkept =>
        cases h
        exact ⟨hkept, _, rfl⟩
    · rintro ⟨hkept, records, h⟩
      cases h
      exact ⟨_, if_neg hkept⟩
  · simp

theorem process_eq_fault_iff :
    p.process picture = .error fault ↔ p.render picture = .error fault := by
  unfold process
  rcases p.render picture with fault | ⟨error | made, state, log⟩
  · simp
  · by_cases hlost : error.losesFrame = true <;> simp [hlost]
  · simp

end Process

/-- With a generator that appends, a processor hands out full frames and nothing else. It returns
the error of the pool or of the generator, or says how much of the buffer was written, and then it
has the storage back; a frame that is lost to the size or the filling of its buffer is left out. -/
theorem whole_or_nothing (happends : p.generator.Appends) (picture : Picture) :
    p.WholeOrNothing picture where
  fault_iff := by
    intro fault
    constructor
    · intro h
      rcases render_cases happends picture with ⟨buffer, fault', hacquire, hdraw, hrender⟩ |
        ⟨_, _, _, _, -, -, hrender⟩ | ⟨_, _, _, -, hrender⟩ <;> rw [hrender] at h <;> cases h
      exact ⟨buffer, hacquire, hdraw⟩
    · rintro ⟨buffer, hacquire, hdraw⟩
      exact render_of_fault hacquire hdraw
  frame_iff := by
    intro frame after
    constructor
    · rintro ⟨log, h⟩
      rcases render_cases happends picture with ⟨_, _, -, -, hrender⟩ |
        ⟨buffer, drawn, _, _, hdrew, hwhole, hrender⟩ | ⟨_, _, _, -, hrender⟩ <;>
        rw [hrender] at h <;> cases h
      exact ⟨buffer, drawn, hdrew, hwhole⟩
    · rintro ⟨buffer, drawn, hdrew, hwhole⟩
      exact ⟨drawn.log, hdrew.render_of_whole hwhole⟩
  error_iff := by
    intro error after
    constructor
    · rintro ⟨log, h⟩
      rcases render_cases happends picture with ⟨_, _, -, -, hrender⟩ |
        ⟨_, _, _, _, -, -, hrender⟩ | ⟨_, _, _, hunmade, hrender⟩ <;> rw [hrender] at h <;> cases h
      exact hunmade
    · exact fun h => h.exists_render_eq happends
  frames_eq := Unmade.frames_eq
  made_iff := process_eq_some_iff p picture
  lost_iff := process_eq_none_iff p picture
  passed_iff := process_eq_error_iff p picture
  process_fault_iff := process_eq_fault_iff p picture

end Processor

def Generator.sparing (n : Nat) : Generator where
  mode := .raster
  draw _ buffer :=
    .ok ⟨.ok { mode := .raster }, (buffer.appendCopies ⟨1, 1, 255⟩ (buffer.remaining - n)).2, []⟩

theorem Generator.appends_sparing (n : Nat) : (sparing n).Appends := by
  rintro picture buffer drawn h
  cases h
  exact .append .refl _ _

open scoped Platform in
theorem Processor.whole_or_nothing_short :
    let p : Processor :=
      ⟨.sparing 1, ⟨[.ofArray #[⟨9, 9, 9⟩, ⟨9, 9, 9⟩, ⟨9, 9, 9⟩]], 1⟩, ⟨2, 1⟩, 5⟩
    p.WholeOrNothing (.ofPixel 7) ∧
      ∃ after log, p.render (.ofPixel 7) = .ok ⟨.error (.of (.capacity 2 1)), after, log⟩ ∧
        after.frames = 5 ∧ after.pool.idle.map Storage.room = [3] :=
  ⟨whole_or_nothing (Generator.appends_sparing 1) _, _, _, rfl, rfl, rfl⟩

end VectorDisplay
