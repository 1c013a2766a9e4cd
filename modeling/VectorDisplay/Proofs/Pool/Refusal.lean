import VectorDisplay.Platform
import VectorDisplay.Proofs.Processor
/-!
What a refused request costs. A pool hands out its oldest idle storage before it is known whether
the storage can grow, and a request that is refused does not bring it back. Main statement: a
processor that fails has less idle storage than before exactly where memory was refused, and then it
is the oldest that is gone.
-/

set_option autoImplicit false

namespace VectorDisplay

def Storage.Refused [Memory] (n : Nat) : Prop :=
  addressLimit < sampleBytes * n ∨ Memory.grants (sampleBytes * n) = false

theorem Storage.refusal_eq_none_iff [Memory] {n : Nat} : refusal n = none ↔ ¬ Refused n := by
  unfold refusal Refused
  split
  · next hfar => simp [hfar]
  · next hnear =>
    split
    · next hgranted => simp [hnear, hgranted]
    · next hnone => simp [hnone]

namespace Buffer

variable [Memory] {s : Storage} {capacity : Nat} {b : Buffer} {error : Error}

theorem room_of_ofStorage (h : ofStorage s capacity = .ok b) : b.room = max s.room capacity := by
  unfold ofStorage at h
  split at h
  · next hle =>
    cases h
    exact (Nat.max_eq_left hle).symm
  · next hgt =>
    split at h
    · cases h
    · cases h
      exact (Nat.max_eq_right (Nat.le_of_not_le hgt)).symm

theorem cause_of_ofStorage (h : ofStorage s capacity = .error error) :
    ∃ reason, error.cause = .resource "sample_buffer" reason := by
  unfold ofStorage at h
  split at h
  · cases h
  · split at h
    · cases h
      exact ⟨_, rfl⟩
    · cases h

theorem exists_ofStorage_eq_error_iff :
    (∃ error, ofStorage s capacity = .error error) ↔
      Storage.Refused capacity ∧ s.room < capacity := by
  have hrefused := not_iff_comm.1 (Storage.refusal_eq_none_iff (n := capacity)).symm
  rw [← hrefused]
  unfold ofStorage
  split
  · next hle => simp [Nat.not_lt.2 hle]
  · next hgt =>
    cases Storage.refusal capacity with
    | none => simp
    | some reason => simpa using Nat.lt_of_not_le hgt

end Buffer

namespace Pool

variable {p : Pool} {capacity : Nat}

theorem lent_eq_iff : p.lent = p ↔ p.idle = [] := by
  obtain ⟨idle, limit⟩ := p
  cases idle with
  | nil => simp [lent]
  | cons s rest =>
    have hne : rest ≠ s :: rest := fun h => by simpa using congrArg List.length h
    simp [lent, hne]

section Requests

variable [Memory]

/-- No memory is found for a request, and the oldest idle storage is too small for it. -/
def Refuses (p : Pool) (capacity : Nat) : Prop :=
  Storage.Refused capacity ∧ (p.idle.head?.getD .empty).room < capacity

theorem acquire_fst (p : Pool) (capacity : Nat) :
    (p.acquire capacity).1 = Buffer.ofStorage (p.idle.head?.getD .empty) capacity := by
  obtain ⟨idle, limit⟩ := p
  cases idle <;> rfl

theorem exists_acquire_eq_error_iff :
    (∃ error, (p.acquire capacity).1 = .error error) ↔ p.Refuses capacity := by
  rw [acquire_fst, Buffer.exists_ofStorage_eq_error_iff]
  rfl

theorem cause_of_acquire {error : Error} (h : (p.acquire capacity).1 = .error error) :
    ∃ reason, error.cause = .resource "sample_buffer" reason := by
  rw [acquire_fst] at h
  exact Buffer.cause_of_ofStorage h

theorem acquire_of_refuses (h : p.Refuses capacity) :
    ∃ error reason, p.acquire capacity = (.error error, p.lent) ∧
      error.cause = .resource "sample_buffer" reason := by
  obtain ⟨error, herror⟩ := exists_acquire_eq_error_iff.2 h
  obtain ⟨reason, hreason⟩ := cause_of_acquire herror
  exact ⟨error, reason, Prod.ext herror (p.acquire_snd capacity), hreason⟩

/-- A request that is refused, and what it costs a pool. -/
structure PaysOldest (p : Pool) (capacity : Nat) : Prop where
  refused_iff : (∃ error, (p.acquire capacity).1 = .error error) ↔ p.Refuses capacity
  cause_eq : ∀ error, (p.acquire capacity).1 = .error error →
    ∃ reason, error.cause = .resource "sample_buffer" reason
  idle_eq : (p.acquire capacity).2 = { p with idle := p.idle.tail }
  spared_iff : (p.acquire capacity).2 = p ↔ p.idle = []

theorem paysOldest (p : Pool) (capacity : Nat) : p.PaysOldest capacity where
  refused_iff := exists_acquire_eq_error_iff
  cause_eq _ := cause_of_acquire
  idle_eq := p.acquire_snd capacity
  spared_iff := by rw [acquire_snd, lent_eq_iff]

end Requests

def Furnished (p : Pool) : Prop := ∀ s ∈ p.idle, s.room ≠ 0

namespace Furnished

theorem lent (h : p.Furnished) : p.lent.Furnished := fun s hs => h s (List.mem_of_mem_tail hs)

theorem recycle (h : p.Furnished) (storage : Storage) : (p.recycle storage).Furnished := by
  unfold Pool.recycle
  split
  · exact h
  · next hroom =>
    split
    · intro s hs
      rcases List.mem_append.1 hs with hold | hnew
      · exact h s hold
      · rwa [List.mem_singleton.1 hnew]
    · exact h

theorem use (h : p.Furnished) (u : Use) : (p.use u).Furnished := by
  cases u with
  | acquire memory capacity =>
    simp only [Pool.use, acquire_snd]
    exact h.lent
  | recycle storage => exact h.recycle storage
  | clear => exact fun s hs => absurd hs List.not_mem_nil

end Furnished

theorem furnished_afterUses (limit : Nat) (uses : List Use) : (afterUses limit uses).Furnished := by
  have hrun (p : Pool) (h : p.Furnished) : (uses.foldl Pool.use p).Furnished := by
    induction uses generalizing p with
    | nil => exact h
    | cons u rest ih => exact ih (p.use u) (h.use u)
  exact hrun _ fun s hs => absurd hs List.not_mem_nil

end Pool

namespace Processor

variable {p after : Processor} {picture : Picture} {error : Error} {buffer : Buffer} {drawn : Drawn}

theorem exists_render_of_refuses [Memory] (h : p.pool.Refuses p.output.area) (picture : Picture) :
    ∃ error reason, p.render picture = .ok ⟨.error error, { p with pool := p.pool.lent }, []⟩ ∧
      error.cause = .resource "sample_buffer" reason := by
  obtain ⟨error, reason, hacquire, hreason⟩ := Pool.acquire_of_refuses h
  exact ⟨error, reason, render_of_refused (congrArg Prod.fst hacquire), hreason⟩

/-- A processor after some pictures, each with the memory of its moment. -/
def renderAll (p : Processor) : List (Memory × Picture) → Checked Processor
  | [] => .ok p
  | (memory, picture) :: rest =>
    match @render memory p picture with
    | .error fault => .error fault
    | .ok reply => renderAll reply.state rest

/-- Picture after picture, a processor that finds no memory loses its idle storage. -/
theorem renderAll_of_refused {moments : List (Memory × Picture)} (hpos : 0 < p.output.area)
    (hrefused : ∀ m ∈ moments, @Storage.Refused m.1 p.output.area)
    (hsmall : ∀ s ∈ p.pool.idle, s.room < p.output.area) :
    p.renderAll moments =
      .ok { p with pool := { p.pool with idle := p.pool.idle.drop moments.length } } := by
  induction moments generalizing p with
  | nil => rfl
  | cons moment rest ih =>
    obtain ⟨memory, picture⟩ := moment
    obtain ⟨hnow, hlater⟩ := List.forall_mem_cons.1 hrefused
    have holdest : (p.pool.idle.head?.getD .empty).room < p.output.area := by
      cases hidle : p.pool.idle with
      | nil => exact hpos
      | cons oldest others => exact hsmall oldest (by simp [hidle])
    obtain ⟨error, reason, hrender, -⟩ := exists_render_of_refuses ⟨hnow, holdest⟩ picture
    have hrest := @ih { p with pool := p.pool.lent } hpos hlater
      fun s hs => hsmall s (List.mem_of_mem_tail hs)
    simp only [renderAll, hrender]
    rw [hrest]
    simp [Pool.lent]

section Failures

variable [Memory]

/-- What its failures cost a processor. -/
structure PaysOldest (p : Processor) : Prop where
  refused : p.pool.Refuses p.output.area → ∀ picture, ∃ error reason,
    p.render picture = .ok ⟨.error error, { p with pool := p.pool.lent }, []⟩ ∧
      error.cause = .resource "sample_buffer" reason
  shrinks_iff : ∀ picture error after log,
    p.render picture = .ok ⟨.error error, after, log⟩ →
      (after.pool.idle.length < p.pool.idle.length ↔
        p.pool.Refuses p.output.area ∧ p.pool.idle ≠ [])
  drained : 0 < p.output.area → (∀ s ∈ p.pool.idle, s.room < p.output.area) →
    ∀ moments : List (Memory × Picture), (∀ m ∈ moments, @Storage.Refused m.1 p.output.area) →
      p.renderAll moments =
        .ok { p with pool := { p.pool with idle := p.pool.idle.drop moments.length } }

/-- A drawing that came to nothing costs no idle storage: what was lent comes back as the newest. -/
theorem GaveBack.length_idle_le (h : p.GaveBack buffer drawn after) (hfurnished : p.pool.Furnished)
    (hlimit : p.pool.idle.length ≤ p.pool.limit)
    (hacquire : (p.pool.acquire p.output.area).1 = .ok buffer) :
    p.pool.idle.length ≤ after.pool.idle.length := by
  cases hidle : p.pool.idle with
  | nil => exact Nat.zero_le _
  | cons oldest rest =>
    have hroom : drawn.buffer.toStorage.room ≠ 0 := by
      have holdest : oldest.room ≠ 0 := hfurnished oldest (by rw [hidle]; exact List.mem_cons_self)
      rw [Pool.acquire_fst, hidle] at hacquire
      have hmax : buffer.room = max oldest.room p.output.area := Buffer.room_of_ofStorage hacquire
      rw [h.room_eq]
      omega
    have hrest : p.pool.lent.idle = rest := by simp [Pool.lent, hidle]
    have hfits : p.pool.lent.idle.length < p.pool.lent.limit := by
      rw [hrest]
      rw [hidle] at hlimit
      exact hlimit
    rw [h.takenBack.kept hroom hfits, hrest]
    simp

theorem Unmade.shrinks_iff (h : p.Unmade picture error after) (hfurnished : p.pool.Furnished)
    (hlimit : p.pool.idle.length ≤ p.pool.limit) :
    after.pool.idle.length < p.pool.idle.length ↔
      p.pool.Refuses p.output.area ∧ p.pool.idle ≠ [] := by
  have hgranted {buffer : Buffer} {drawn : Drawn} (hdrew : p.Drew picture buffer drawn) :
      ¬ p.pool.Refuses p.output.area := fun hrefuses => by
    obtain ⟨error, herror⟩ := Pool.exists_acquire_eq_error_iff.2 hrefuses
    rw [hdrew.acquire_eq] at herror
    cases herror
  cases h with
  | refused hacquire =>
    have hrefuses := Pool.exists_acquire_eq_error_iff.1 ⟨_, hacquire⟩
    cases hidle : p.pool.idle with
    | nil => simp [Pool.lent, hidle]
    | cons oldest rest => simp [Pool.lent, hidle, hrefuses]
  | failed hdrew _ hback =>
    have hkept := hback.length_idle_le hfurnished hlimit hdrew.acquire_eq
    simp [hgranted hdrew, hkept]
  | short hdrew _ _ hback =>
    have hkept := hback.length_idle_le hfurnished hlimit hdrew.acquire_eq
    simp [hgranted hdrew, hkept]

end Failures

end Processor

/-- A request that is refused loses the oldest idle storage of a pool. Nothing else that a processor
fails on makes its idle storage less, whatever happened to the pool before; but where no idle
storage is large enough, it loses one with every picture until nothing is left. -/
theorem Pool.refusal_costs_oldest [Memory] {g : Generator} (happends : g.Appends) (limit : Nat)
    (uses : List Use) (output : Size) (frames : Nat) :
    (∀ (p : Pool) (capacity : Nat), p.PaysOldest capacity) ∧
      (Processor.mk g (afterUses limit uses) output frames).PaysOldest := by
  refine ⟨paysOldest, Processor.exists_render_of_refuses, ?_,
    fun hpos hsmall _ hrefused => Processor.renderAll_of_refused hpos hrefused hsmall⟩
  intro picture error after log hrender
  have hunmade := (Processor.whole_or_nothing happends picture).error_iff.1 ⟨log, hrender⟩
  have hkeeps := keeps_afterUses limit uses
  have hlength := hkeeps.length_le.trans_eq hkeeps.limit_eq.symm
  exact hunmade.shrinks_iff (furnished_afterUses limit uses) hlength

open scoped Platform in
theorem Pool.refusal_costs_oldest_sole :
    let pool := afterUses 1 [.recycle (.ofArray #[⟨9, 9, 9⟩])]
    let p : Processor := ⟨Settings.generator {}, pool, ⟨2 ^ 31, 2 ^ 30⟩, 0⟩
    p.PaysOldest ∧ pool.Refuses (2 ^ 61) ∧ pool.idle.map Storage.room = [1] ∧
      (pool.acquire (2 ^ 61)).2.idle = [] := by
  have hrefused : Storage.Refused (2 ^ 61) := .inr (by decide)
  exact ⟨(refusal_costs_oldest (Settings.appends_generator {}) 1 _ _ 0).2,
    ⟨hrefused, by decide⟩, rfl, rfl⟩

end VectorDisplay
