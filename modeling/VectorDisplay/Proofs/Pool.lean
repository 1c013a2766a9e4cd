import VectorDisplay.Platform
import VectorDisplay.Proofs.Storage
import VectorDisplay.Proofs.Validity
/-!
Pools over any history of uses. A pool never keeps more idle storage than its limit, and what it gives
out is empty and exactly as large as asked for. Main statement: whatever happened to the pool of a
processor before, its frames are those that the settings render into fresh buffers.
-/

set_option autoImplicit false

namespace VectorDisplay

namespace Pool

/-- What may happen to a pool, with the memory that there is when a buffer is asked for. -/
inductive Use where
  | acquire (memory : Memory) (capacity : Nat)
  | recycle (storage : Storage)
  | clear

def use (p : Pool) : Use → Pool
  | .acquire memory capacity => (@acquire memory p capacity).2
  | .recycle storage => p.recycle storage
  | .clear => p.clear

/-- A pool that kept at most `limit` idle storage from the start, after some uses. -/
def afterUses (limit : Nat) (uses : List Use) : Pool := uses.foldl use (.ofLimit limit)

/-- A pool of a limit that keeps to it. -/
structure Keeps (p : Pool) (limit : Nat) : Prop where
  limit_eq : p.limit = limit
  length_le : p.idle.length ≤ limit

variable {p : Pool} {limit : Nat}

theorem keeps_ofLimit (limit : Nat) : (ofLimit limit).Keeps limit := ⟨rfl, Nat.zero_le _⟩

theorem Keeps.acquire [Memory] (h : p.Keeps limit) (capacity : Nat) :
    (p.acquire capacity).2.Keeps limit := by
  unfold Pool.acquire
  split
  · exact h
  · next storage idle hidle =>
    have := h.length_le
    rw [hidle, List.length_cons] at this
    exact ⟨h.limit_eq, Nat.le_of_succ_le this⟩

theorem Keeps.recycle (h : p.Keeps limit) (storage : Storage) :
    (p.recycle storage).Keeps limit := by
  unfold Pool.recycle
  split
  · exact h
  · split
    · next hroom =>
      rw [h.limit_eq] at hroom
      exact ⟨h.limit_eq, by simpa using hroom⟩
    · exact h

theorem Keeps.use (h : p.Keeps limit) (u : Use) : (p.use u).Keeps limit := by
  cases u with
  | acquire memory capacity => exact h.acquire capacity
  | recycle storage => exact h.recycle storage
  | clear => exact ⟨h.limit_eq, Nat.zero_le _⟩

theorem keeps_afterUses (limit : Nat) (uses : List Use) : (afterUses limit uses).Keeps limit := by
  have hrun (p : Pool) (h : p.Keeps limit) : (uses.foldl Pool.use p).Keeps limit := by
    induction uses generalizing p with
    | nil => exact h
    | cons u rest ih => exact ih (p.use u) (h.use u)
  exact hrun _ (keeps_ofLimit limit)

theorem acquire_eq_ok [Memory] {capacity : Nat} {b : Buffer} (h : (p.acquire capacity).1 = .ok b) :
    b.capacity = capacity ∧ b.samples = #[] := by
  obtain ⟨storage, pool, hacquire⟩ := p.exists_acquire_eq capacity
  rw [hacquire] at h
  exact Buffer.ofStorage_eq_ok h

end Pool

structure Logged.SameFrame (fresh : Logged (Except Error Frame)) (pooled : Reply Processor Frame) :
    Prop where
  exists_frame : ∃ frame drawn, fresh.result = .ok frame ∧ pooled.result = .ok drawn ∧
    drawn.Alike frame
  log_eq : pooled.log = fresh.log

theorem Processor.Serves.paired_render [Hypot] [Memory] {p : Processor} {s : Settings}
    (hp : p.Serves s) (hvalid : s.fault? = none) {fresh : Buffer}
    (hfresh : Buffer.ofCapacity s.capacity = .ok fresh) (picture : Picture) :
    Checked.Paired Logged.SameFrame (s.render picture) (p.render picture) := by
  cases hdraw : s.generator.draw picture fresh with
  | error fault =>
    right
    refine ⟨fault, ?_, hp.render_eq_error hfresh hdraw⟩
    unfold Settings.render
    simp only [hvalid, hfresh, hdraw]
  | ok drawn =>
    left
    obtain ⟨frame, hrender⟩ := Settings.exists_render_eq_ok hvalid hfresh hdraw
    obtain ⟨pooled, p', hpooled, halike, -⟩ := hp.exists_render_eq_ok hrender
    exact ⟨_, _, hrender, hpooled, ⟨frame, pooled, rfl, rfl, halike⟩, rfl⟩

/-- After any uses, a pool keeps to its limit and gives out empty buffers of the size asked for; so a
processor renders from it what its settings render into fresh storage, where that is granted. -/
theorem Pool.history_is_invisible [Hypot] [Memory] (limit : Nat) (uses : List Pool.Use) :
    (afterUses limit uses).idle.length ≤ limit ∧
      (∀ capacity b, ((afterUses limit uses).acquire capacity).1 = .ok b →
        b.capacity = capacity ∧ b.samples = #[]) ∧
      ∀ (s : Settings) (frames : Nat) (picture : Picture) (fresh : Buffer), s.fault? = none →
        Buffer.ofCapacity s.capacity = .ok fresh →
        Checked.Paired Logged.SameFrame (s.render picture)
          (Processor.render ⟨s.generator, afterUses limit uses, ⟨s.width, s.height⟩, frames⟩
            picture) := by
  refine ⟨(keeps_afterUses limit uses).length_le, fun capacity b h => acquire_eq_ok h, ?_⟩
  intro s frames picture fresh hvalid hfresh
  exact Processor.Serves.paired_render ⟨rfl, rfl⟩ hvalid hfresh picture

open scoped Platform in
theorem Pool.history_is_invisible_stale :
    ∃ fresh pooled,
      ({ width := 2, height := 1, columns := 2, rows := 1, mode := .raster } : Settings).render
          (.ofPixel 200) = .ok fresh ∧
      Processor.render ⟨.sweep { columns := 2, rows := 1 },
          afterUses 1 [.recycle (.ofArray #[⟨9, 9, 9⟩, ⟨9, 9, 9⟩])], ⟨2, 1⟩, 0⟩ (.ofPixel 200) =
        .ok pooled ∧
      fresh.SameFrame pooled := by
  let s : Settings := { width := 2, height := 1, columns := 2, rows := 1, mode := .raster }
  have hreturns : (s.render (.ofPixel 200)).isOk = true := by decide +kernel
  obtain ⟨fresh, pooled, hfresh, hpooled, hsame⟩ | ⟨fault, hfault, -⟩ :=
    (history_is_invisible 1 [.recycle (.ofArray #[⟨9, 9, 9⟩, ⟨9, 9, 9⟩])]).2.2 s 0 (.ofPixel 200) _
      (by decide +kernel) rfl
  · exact ⟨fresh, pooled, hfresh, hpooled, hsame⟩
  · rw [hfault] at hreturns
    cases hreturns

end VectorDisplay
