import Mathlib
import VectorDisplay.Platform
import VectorDisplay.Proofs.Showing
/-!
Calls for pictures, counted from zero. While pictures are due, call `k` shows file `k % n` of `n`; once
the passes that were asked for are over, every call gives nothing, and still counts as one more pass.
Main statement: calls are answered so, without end, until a number leaves its word, and from there on
they fault. Passes are counted in 32 bits, so a sequence without end does end, after `2 ^ 32` passes.
-/

set_option autoImplicit false

namespace VectorDisplay

namespace ImageSequence

/-- What `k` calls leave of a sequence; a fault ends them all. -/
def after [ImageLibrary] (s : ImageSequence) (folder : Folder) : Nat → Checked ImageSequence
  | 0 => .ok s
  | k + 1 =>
    match s.after folder k with
    | .error fault => .error fault
    | .ok s' =>
      match s'.next folder with
      | .error fault => .error fault
      | .ok reply => .ok reply.state

def call [ImageLibrary] (s : ImageSequence) (folder : Folder) (k : Nat) :
    Checked (Reply ImageSequence (Option Picture)) :=
  match s.after folder k with
  | .error fault => .error fault
  | .ok s' => s'.next folder

/-- Call `k` is for a picture: without a number of passes every call is. -/
def Due (s : ImageSequence) (k : Nat) : Prop := s.loops = 0 ∨ k < s.loops * s.paths.length

instance (s : ImageSequence) (k : Nat) : Decidable (s.Due k) := inferInstanceAs (Decidable (_ ∨ _))

/-- The numbers of call `k` fit into their words: the pass, the picture and its time, or the passes that
calls for nothing are counted as. -/
structure Counts (s : ImageSequence) (k : Nat) : Prop where
  pass_lt : s.Due k → k < 2 ^ 32 * s.paths.length
  shown_lt : s.Due k → k + 1 < 2 ^ 64
  time_lt : s.Due k → ∀ i ∈ s.interval, k * i < 2 ^ 64
  idle_lt : ¬ s.Due k → s.loops + (k - s.loops * s.paths.length) < 2 ^ 32

/-- A sequence that has shown `k` pictures of another one, which has shown none. -/
structure UnderWay (s₀ s : ImageSequence) (k : Nat) : Prop where
  paths_eq : s.paths = s₀.paths
  loops_eq : s.loops = s₀.loops
  interval_eq : s.interval = s₀.interval
  shown_eq : s.shown = k
  count_eq : s.pass * s₀.paths.length + s.position = k
  position_le : s.position ≤ s₀.paths.length
  pass_lt : s.pass < passLimit
  pass_lt_loops : s₀.loops ≠ 0 → s.pass < s₀.loops

structure Over (s₀ s : ImageSequence) (k : Nat) : Prop where
  paths_eq : s.paths = s₀.paths
  loops_eq : s.loops = s₀.loops
  loops_ne : s₀.loops ≠ 0
  position_eq : s.position = s₀.paths.length
  le_count : s₀.loops * s₀.paths.length ≤ k
  pass_eq : s.pass + 1 = s₀.loops + (k - s₀.loops * s₀.paths.length)

variable {s₀ s : ImageSequence} {k : Nat} {folder : Folder} {picture : String → Picture}

theorem underWay_start (paths : List String) (loops : Nat) (interval : Option Nat) :
    UnderWay { paths, loops, interval } { paths, loops, interval } 0 where
  paths_eq := rfl
  loops_eq := rfl
  interval_eq := rfl
  shown_eq := rfl
  count_eq := by simp
  position_le := Nat.zero_le _
  pass_lt := Nat.two_pow_pos 32
  pass_lt_loops := Nat.pos_of_ne_zero

namespace UnderWay

theorem pass_over {n : Nat} (h : UnderWay s₀ s k) (hpaths : s₀.paths ≠ []) (hpass : s.pass < n)
    (hcount : n * s₀.paths.length ≤ k) : s.position = s₀.paths.length ∧ s.pass + 1 = n := by
  have hfiles : 0 < s₀.paths.length := List.length_pos_iff.2 hpaths
  have hbegun : (s.pass + 1) * s₀.paths.length ≤ n * s₀.paths.length :=
    Nat.mul_le_mul_right _ hpass
  have hk := h.count_eq
  have hle := h.position_le
  rw [Nat.succ_mul] at hbegun
  have hsame : (s.pass + 1) * s₀.paths.length = n * s₀.paths.length := by
    rw [Nat.succ_mul]
    omega
  exact ⟨by omega, Nat.eq_of_mul_eq_mul_right hfiles hsame⟩

theorem at_end (h : UnderWay s₀ s k) (hend : s₀.paths.length ≤ s.position) :
    (s.pass + 1) * s₀.paths.length = k := by
  rw [Nat.succ_mul, ← h.count_eq, Nat.le_antisymm h.position_le hend]

theorem next_eq [ImageLibrary] (h : UnderWay s₀ s k) (hpaths : s₀.paths ≠ []) (hdue : s₀.Due k)
    (hpass : k < 2 ^ 32 * s₀.paths.length) (folder : Folder) :
    ∃ s', s.next folder = s'.present folder ∧ UnderWay s₀ s' k ∧
      s'.position < s₀.paths.length := by
  by_cases hend : s₀.paths.length ≤ s.position
  · have hk := h.at_end hend
    have hlimit : s.pass + 1 < passLimit := by
      rw [← hk] at hpass
      exact Nat.lt_of_mul_lt_mul_right hpass
    have hmore (hloops : s₀.loops ≠ 0) : s.pass + 1 < s₀.loops := by
      have hlt := hdue.resolve_left hloops
      rw [← hk] at hlt
      exact Nat.lt_of_mul_lt_mul_right hlt
    have hgoes : (s.paths.isEmpty || (s.loops ≠ 0 && s.loops ≤ s.pass + 1)) = false := by
      rw [h.paths_eq, h.loops_eq]
      simpa [hpaths] using hmore
    refine ⟨{ s with pass := s.pass + 1, position := 0 }, ?_, ?_, List.length_pos_iff.2 hpaths⟩
    · rw [← h.paths_eq] at hend
      rw [next, if_pos hend, if_pos hlimit]
      exact if_neg (Bool.eq_false_iff.1 hgoes)
    · exact ⟨h.paths_eq, h.loops_eq, h.interval_eq, h.shown_eq, hk, Nat.zero_le _, hlimit, hmore⟩
  · refine ⟨s, ?_, h, Nat.lt_of_not_le hend⟩
    rw [← h.paths_eq] at hend
    rw [next, if_neg hend]

theorem getElem?_position (h : UnderWay s₀ s k) (hlt : s.position < s₀.paths.length) :
    ∃ path ∈ s₀.paths, s₀.paths[k % s₀.paths.length]? = some path ∧
      s.paths[s.position]? = some path := by
  have hturn : k % s₀.paths.length = s.position := by
    rw [← h.count_eq, Nat.mul_comm, Nat.mul_add_mod, Nat.mod_eq_of_lt hlt]
  rw [h.paths_eq, hturn, List.getElem?_eq_getElem hlt]
  exact ⟨_, List.getElem_mem hlt, rfl, rfl⟩

theorem nextTime_eq (h : UnderWay s₀ s k) (htime : ∀ i ∈ s₀.interval, k * i < 2 ^ 64) :
    s.nextTime = .ok (s₀.interval.map (k * ·)) := by
  unfold nextTime
  rw [h.interval_eq, h.shown_eq]
  cases hinterval : s₀.interval with
  | none => rfl
  | some i =>
    have hword : VectorDisplay.word (k * i) = .ok (k * i) := if_pos (htime i hinterval)
    simp [hword]

theorem nextTime_eq_error (h : UnderWay s₀ s k) (htime : ¬ ∀ i ∈ s₀.interval, k * i < 2 ^ 64) :
    s.nextTime = .error .overflow := by
  unfold nextTime
  rw [h.interval_eq, h.shown_eq]
  cases hinterval : s₀.interval with
  | none => simp [hinterval] at htime
  | some i =>
    have hfar : ¬ k * i < 2 ^ 64 := by simpa [hinterval] using htime
    have hword : VectorDisplay.word (k * i) = .error .overflow := if_neg hfar
    simp [hword]

section Presenting

variable [ImageLibrary] (hdecode : ∀ path ∈ s₀.paths, decode folder path = .ok (.ok (picture path)))

include hdecode

theorem present_eq (h : UnderWay s₀ s k) (hlt : s.position < s₀.paths.length)
    (hshown : k + 1 < 2 ^ 64) (htime : ∀ i ∈ s₀.interval, k * i < 2 ^ 64) :
    ∃ path s', s₀.paths[k % s₀.paths.length]? = some path ∧
      s.present folder =
        .ok ⟨.ok (some { picture path with time := s₀.interval.map (k * ·) }), s', []⟩ ∧
      UnderWay s₀ s' (k + 1) := by
  obtain ⟨path, hmem, hturn, hposition⟩ := h.getElem?_position hlt
  have hword : VectorDisplay.word (s.shown + 1) = .ok (k + 1) := by
    rw [h.shown_eq]
    exact if_pos hshown
  refine ⟨path, { s with position := s.position + 1, shown := k + 1 }, hturn, ?_, ?_⟩
  · simp only [present, hposition, hdecode path hmem, h.nextTime_eq htime, hword]
  · have hcount := h.count_eq
    exact ⟨h.paths_eq, h.loops_eq, h.interval_eq, rfl, by dsimp only; omega, hlt, h.pass_lt,
      h.pass_lt_loops⟩

theorem present_eq_error (h : UnderWay s₀ s k) (hlt : s.position < s₀.paths.length)
    (hfar : ¬ (k + 1 < 2 ^ 64 ∧ ∀ i ∈ s₀.interval, k * i < 2 ^ 64)) :
    s.present folder = .error .overflow := by
  obtain ⟨path, hmem, -, hposition⟩ := h.getElem?_position hlt
  by_cases htime : ∀ i ∈ s₀.interval, k * i < 2 ^ 64
  · have hshown : ¬ k + 1 < 2 ^ 64 := fun hshown => hfar ⟨hshown, htime⟩
    have hword : VectorDisplay.word (s.shown + 1) = .error .overflow := by
      rw [h.shown_eq]
      exact if_neg hshown
    simp only [present, hposition, hdecode path hmem, h.nextTime_eq htime, hword]
  · simp only [present, hposition, hdecode path hmem, h.nextTime_eq_error htime]

theorem next_of_due (h : UnderWay s₀ s k) (hpaths : s₀.paths ≠ []) (hdue : s₀.Due k)
    (hcounts : s₀.Counts k) :
    ∃ path s', s₀.paths[k % s₀.paths.length]? = some path ∧
      s.next folder =
        .ok ⟨.ok (some { picture path with time := s₀.interval.map (k * ·) }), s', []⟩ ∧
      UnderWay s₀ s' (k + 1) := by
  obtain ⟨s', hnext, h', hlt⟩ := h.next_eq hpaths hdue (hcounts.pass_lt hdue) folder
  rw [hnext]
  exact h'.present_eq hdecode hlt (hcounts.shown_lt hdue) (hcounts.time_lt hdue)

theorem next_eq_error (h : UnderWay s₀ s k) (hpaths : s₀.paths ≠ []) (hdue : s₀.Due k)
    (hcounts : ¬ s₀.Counts k) : s.next folder = .error .overflow := by
  by_cases hpass : k < 2 ^ 32 * s₀.paths.length
  · obtain ⟨s', hnext, h', hlt⟩ := h.next_eq hpaths hdue hpass folder
    rw [hnext]
    refine h'.present_eq_error hdecode hlt fun hfits => hcounts ?_
    exact ⟨fun _ => hpass, fun _ => hfits.1, fun _ => hfits.2, fun hnot => absurd hdue hnot⟩
  · obtain ⟨hposition, hlast⟩ := h.pass_over hpaths h.pass_lt (Nat.le_of_not_lt hpass)
    rw [← h.paths_eq] at hposition
    rw [next, if_pos (Nat.le_of_eq hposition.symm), if_neg (Nat.not_lt.2 (Nat.le_of_eq hlast.symm))]

end Presenting

theorem toOver (h : UnderWay s₀ s k) (hpaths : s₀.paths ≠ []) (hnot : ¬ s₀.Due k) :
    Over s₀ s k := by
  obtain ⟨hloops, hcount⟩ := not_or.1 hnot
  have hle := Nat.le_of_not_lt hcount
  obtain ⟨hposition, hlast⟩ := h.pass_over hpaths (h.pass_lt_loops hloops) hle
  have hk := h.at_end (Nat.le_of_eq hposition.symm)
  rw [hlast] at hk
  exact ⟨h.paths_eq, h.loops_eq, hloops, hposition, hle, by omega⟩

end UnderWay

namespace Over

theorem not_due (h : Over s₀ s k) : ¬ s₀.Due k :=
  not_or.2 ⟨h.loops_ne, Nat.not_lt.2 h.le_count⟩

theorem le_position (h : Over s₀ s k) : s.paths.length ≤ s.position := by
  exact Nat.le_of_eq (h.paths_eq ▸ h.position_eq.symm)

theorem next_eq [ImageLibrary] (h : Over s₀ s k) (hcounts : s₀.Counts k) (folder : Folder) :
    ∃ s', s.next folder = .ok ⟨.ok none, s', []⟩ ∧ Over s₀ s' (k + 1) := by
  have hpass := h.pass_eq
  have hcount := h.le_count
  have hlimit : s.pass + 1 < passLimit := by
    rw [hpass]
    exact hcounts.idle_lt h.not_due
  have hends : (s.paths.isEmpty || (s.loops ≠ 0 && s.loops ≤ s.pass + 1)) = true := by
    rw [h.loops_eq]
    simp [h.loops_ne, hpass]
  refine ⟨{ s with pass := s.pass + 1 }, ?_, ?_⟩
  · rw [next, if_pos h.le_position, if_pos hlimit]
    exact if_pos hends
  · exact ⟨h.paths_eq, h.loops_eq, h.loops_ne, h.position_eq, by omega, by dsimp only; omega⟩

theorem next_eq_error [ImageLibrary] (h : Over s₀ s k) (hcounts : ¬ s₀.Counts k) (folder : Folder) :
    s.next folder = .error .overflow := by
  have hfar : ¬ s.pass + 1 < passLimit := by
    rw [h.pass_eq]
    intro hlt
    have hnot := h.not_due
    exact hcounts ⟨fun hdue => absurd hdue hnot, fun hdue => absurd hdue hnot,
      fun hdue => absurd hdue hnot, fun _ => hlt⟩
  rw [next, if_pos h.le_position, if_neg hfar]

end Over

theorem call_eq [ImageLibrary] (hafter : s₀.after folder k = .ok s) :
    s₀.call folder k = s.next folder := by
  rw [call, hafter]

theorem after_succ [ImageLibrary] (s : ImageSequence) (folder : Folder) (k : Nat) :
    s.after folder (k + 1) = (s.call folder k).map Reply.state := by
  unfold call
  rw [after]
  cases s.after folder k with
  | error fault => rfl
  | ok s' => cases h : s'.next folder <;> simp [h, Except.map]

section Running

variable [ImageLibrary] (hstart : UnderWay s₀ s₀ 0) (hpaths : s₀.paths ≠ [])
  (hdecode : ∀ path ∈ s₀.paths, decode folder path = .ok (.ok (picture path)))

include hstart hpaths hdecode

/-- Calls whose numbers fit are answered, and leave the sequence under way or at its end. -/
theorem exists_after (hcounts : ∀ j < k, s₀.Counts j) :
    ∃ s, s₀.after folder k = .ok s ∧ (UnderWay s₀ s k ∨ Over s₀ s k) := by
  induction k with
  | zero => exact ⟨s₀, rfl, .inl hstart⟩
  | succ k ih =>
    obtain ⟨s, hafter, hstands⟩ := ih fun j hj => hcounts j (by omega)
    have hcall := hcounts k (by omega)
    simp only [after, hafter]
    by_cases hdue : s₀.Due k
    · have h := hstands.resolve_right fun hover => hover.not_due hdue
      obtain ⟨path, s', -, hnext, h'⟩ := h.next_of_due hdecode hpaths hdue hcall
      exact ⟨s', by rw [hnext], .inl h'⟩
    · have h := hstands.elim (fun hway => hway.toOver hpaths hdue) id
      obtain ⟨s', hnext, h'⟩ := h.next_eq hcall folder
      exact ⟨s', by rw [hnext], .inr h'⟩

theorem call_of_due (hcounts : ∀ j ≤ k, s₀.Counts j) (hdue : s₀.Due k) :
    ∃ path s', s₀.paths[k % s₀.paths.length]? = some path ∧ s₀.call folder k =
      .ok ⟨.ok (some { picture path with time := s₀.interval.map (k * ·) }), s', []⟩ := by
  obtain ⟨s, hafter, hstands⟩ := exists_after hstart hpaths hdecode
    fun j (hj : j < k) => hcounts j (Nat.le_of_lt hj)
  have h := hstands.resolve_right fun hover => hover.not_due hdue
  obtain ⟨path, s', hturn, hnext, -⟩ :=
    h.next_of_due hdecode hpaths hdue (hcounts k (Nat.le_refl k))
  exact ⟨path, s', hturn, (call_eq hafter).trans hnext⟩

theorem call_of_not_due (hcounts : ∀ j ≤ k, s₀.Counts j) (hdue : ¬ s₀.Due k) :
    ∃ s', s₀.call folder k = .ok ⟨.ok none, s', []⟩ := by
  obtain ⟨s, hafter, hstands⟩ := exists_after hstart hpaths hdecode
    fun j (hj : j < k) => hcounts j (Nat.le_of_lt hj)
  have h := hstands.elim (fun hway => hway.toOver hpaths hdue) id
  obtain ⟨s', hnext, -⟩ := h.next_eq (hcounts k (Nat.le_refl k)) folder
  exact ⟨s', (call_eq hafter).trans hnext⟩

theorem call_eq_error_of_first (hbefore : ∀ j < k, s₀.Counts j) (hcall : ¬ s₀.Counts k) :
    s₀.call folder k = .error .overflow := by
  obtain ⟨s, hafter, hstands⟩ := exists_after hstart hpaths hdecode hbefore
  rw [call_eq hafter]
  by_cases hdue : s₀.Due k
  · have h := hstands.resolve_right fun hover => hover.not_due hdue
    exact h.next_eq_error hdecode hpaths hdue hcall
  · have h := hstands.elim (fun hway => hway.toOver hpaths hdue) id
    exact h.next_eq_error hcall folder

/-- The first call whose numbers do not fit faults, and all calls after it with it. -/
theorem call_eq_error (hcounts : ¬ ∀ j ≤ k, s₀.Counts j) :
    s₀.call folder k = .error .overflow := by
  induction k with
  | zero =>
    refine call_eq_error_of_first hstart hpaths hdecode (fun j hj => absurd hj j.not_lt_zero) ?_
    exact fun hcall => hcounts fun j hj => Nat.le_zero.1 hj ▸ hcall
  | succ k ih =>
    by_cases hbefore : ∀ j ≤ k, s₀.Counts j
    · refine call_eq_error_of_first hstart hpaths hdecode
        (fun j hj => hbefore j (Nat.le_of_lt_succ hj)) fun hcall => hcounts fun j hj => ?_
      rcases Nat.le_succ_iff.1 hj with hj | rfl
      · exact hbefore j hj
      · exact hcall
    · rw [call, after_succ, ih hbefore]
      rfl

end Running

section Limits

theorem counts_iff_of_due (hdue : s.Due k) :
    (∀ j ≤ k, s.Counts j) ↔
      k < 2 ^ 32 * s.paths.length ∧ k + 1 < 2 ^ 64 ∧ ∀ i ∈ s.interval, k * i < 2 ^ 64 := by
  constructor
  · intro hcounts
    have hcall := hcounts k (Nat.le_refl k)
    exact ⟨hcall.pass_lt hdue, hcall.shown_lt hdue, hcall.time_lt hdue⟩
  · rintro ⟨hpass, hshown, htime⟩ j hj
    have hdueBefore : s.Due j := hdue.imp_right fun hk => Nat.lt_of_le_of_lt hj hk
    refine ⟨fun _ => by omega, fun _ => by omega, fun _ i hi => ?_,
      fun hnot => absurd hdueBefore hnot⟩
    exact Nat.lt_of_le_of_lt (Nat.mul_le_mul_right i hj) (htime i hi)

theorem counts_iff_of_not_due (hpaths : s.paths ≠ []) (hloops : s.loops < 2 ^ 32)
    (hdue : ¬ s.Due k) :
    (∀ j ≤ k, s.Counts j) ↔
      s.loops + (k - s.loops * s.paths.length) < 2 ^ 32 ∧ s.loops * s.paths.length < 2 ^ 64 ∧
        ∀ i ∈ s.interval, (s.loops * s.paths.length - 1) * i < 2 ^ 64 := by
  obtain ⟨hne, hcount⟩ := not_or.1 hdue
  have hpictures : 0 < s.loops * s.paths.length :=
    Nat.mul_pos (Nat.pos_of_ne_zero hne) (List.length_pos_iff.2 hpaths)
  constructor
  · intro hcounts
    have hlast := hcounts (s.loops * s.paths.length - 1) (by omega)
    have hlastDue : s.Due (s.loops * s.paths.length - 1) := .inr (by omega)
    have hshown := hlast.shown_lt hlastDue
    exact ⟨(hcounts k (Nat.le_refl k)).idle_lt hdue, by omega, hlast.time_lt hlastDue⟩
  · rintro ⟨hidle, hshown, htime⟩ j hj
    refine ⟨fun h => ?_, fun h => ?_, fun h i hi => ?_, fun _ => by omega⟩
    · exact Nat.lt_of_lt_of_le (h.resolve_left hne) (Nat.mul_le_mul_right _ (Nat.le_of_lt hloops))
    · have := h.resolve_left hne
      omega
    · have hlast : j ≤ s.loops * s.paths.length - 1 := by
        have := h.resolve_left hne
        omega
      exact Nat.lt_of_le_of_lt (Nat.mul_le_mul_right i hlast) (htime i hi)

end Limits

/-- Calls to a sequence of `n` files at some number of pictures per second, if any. A call before the end
gives the file whose turn it is, stamped with its time, and every call after the end gives nothing, as
long as all numbers fit into their words; where one does not, the call faults. So a sequence without end
faults after `2 ^ 32` passes at the latest, and any other after `2 ^ 32` passes and calls for nothing. -/
theorem calls_in_turn [ImageLibrary] {paths : List String} {loops : Nat} (rate : Nat)
    (hpaths : paths ≠ []) (hloops : loops < 2 ^ 32)
    (hdecode : ∀ path ∈ paths, decode folder path = .ok (.ok (picture path))) (k : Nat) :
    (loops = 0 ∨ k < loops * paths.length →
      if k < 2 ^ 32 * paths.length ∧ k + 1 < 2 ^ 64 ∧ k * (10 ^ 9 / rate) < 2 ^ 64 then
        ∃ path s', paths[k % paths.length]? = some path ∧
          (withRate { paths, loops } rate).call folder k = .ok ⟨.ok (some { picture path with
            time := if rate = 0 then none else some (k * (10 ^ 9 / rate)) }), s', []⟩
      else (withRate { paths, loops } rate).call folder k = .error .overflow) ∧
    (loops ≠ 0 → loops * paths.length ≤ k →
      if loops + (k - loops * paths.length) < 2 ^ 32 ∧ loops * paths.length < 2 ^ 64 ∧
          (loops * paths.length - 1) * (10 ^ 9 / rate) < 2 ^ 64 then
        ∃ s', (withRate { paths, loops } rate).call folder k = .ok ⟨.ok none, s', []⟩
      else (withRate { paths, loops } rate).call folder k = .error .overflow) := by
  obtain ⟨s, hs⟩ : ∃ s, withRate { paths, loops } rate = s := ⟨_, rfl⟩
  have hstart : UnderWay s s 0 := hs ▸ underWay_start paths loops _
  have hinterval : s.interval = if rate = 0 then none else some (10 ^ 9 / rate) := hs ▸ rfl
  have htimes (m : Nat) : (∀ i ∈ s.interval, m * i < 2 ^ 64) ↔ m * (10 ^ 9 / rate) < 2 ^ 64 := by
    rw [hinterval]
    by_cases hrate : rate = 0 <;> simp [hrate]
  obtain rfl : s.paths = paths := hs ▸ rfl
  obtain rfl : s.loops = loops := hs ▸ rfl
  rw [hs]
  refine ⟨fun hdue => ?_, fun hne hcount => ?_⟩
  · have hfit := counts_iff_of_due hdue
    rw [htimes] at hfit
    split
    · next hnumbers =>
      obtain ⟨path, s', hturn, hcall⟩ :=
        call_of_due hstart hpaths hdecode (hfit.2 hnumbers) hdue
      have htime : s.interval.map (k * ·) =
          if rate = 0 then none else some (k * (10 ^ 9 / rate)) := by
        rw [hinterval, apply_ite (Option.map (k * ·)), Option.map_none, Option.map_some]
      exact ⟨path, s', hturn, by rw [hcall, htime]⟩
    · next hnumbers =>
      exact call_eq_error hstart hpaths hdecode fun hcounts => hnumbers (hfit.1 hcounts)
  · have hdue : ¬ s.Due k := not_or.2 ⟨hne, Nat.not_lt.2 hcount⟩
    have hfit := counts_iff_of_not_due hpaths hloops hdue
    rw [htimes] at hfit
    split
    · next hnumbers => exact call_of_not_due hstart hpaths hdecode (hfit.2 hnumbers) hdue
    · next hnumbers =>
      exact call_eq_error hstart hpaths hdecode fun hcounts => hnumbers (hfit.1 hcounts)

def pixelFolder : Folder :=
  ⟨[(["a"], ⟨#[0x50, 0x35, 0x20, 0x31, 0x20, 0x31, 0x20, 0x32, 0x35, 0x35, 0x20, 7]⟩)], []⟩

open scoped Platform in
theorem calls_in_turn_endless : ∃ picture : Picture,
    (∃ s', (withRate { paths := ["a"], loops := 0 } 5).call pixelFolder (2 ^ 32 - 1) =
      .ok ⟨.ok (some { picture with time := some ((2 ^ 32 - 1) * 200000000) }), s', []⟩) ∧
    (withRate { paths := ["a"], loops := 0 } 5).call pixelFolder (2 ^ 32) = .error .overflow ∧
    (∃ s', (withRate { paths := ["a"], loops := 1 } 0).call pixelFolder (2 ^ 32 - 1) =
      .ok ⟨.ok none, s', []⟩) ∧
    (withRate { paths := ["a"], loops := 1 } 0).call pixelFolder (2 ^ 32) = .error .overflow := by
  have hlocate : Folder.locate pixelFolder "a" = .ok (.entry [] "a" false) := by cbv
  have hread : ((decode pixelFolder "a").toOption.bind Except.toOption).isSome = true := by
    simp only [decode, Folder.read, hlocate]
    decide +kernel
  obtain ⟨picture, hpicture⟩ := Option.isSome_iff_exists.1 hread
  obtain ⟨decoded, hdecoded, hok⟩ := Option.bind_eq_some_iff.1 hpicture
  obtain rfl : decoded = .ok picture := eq_ok_of_toOption hok
  have hdecode : ∀ path ∈ ["a"], decode pixelFolder path = .ok (.ok picture) := by
    simpa using eq_ok_of_toOption hdecoded
  have hcalls (loops rate : Nat) (hloops : loops < 2 ^ 32) (k : Nat) :=
    calls_in_turn rate (by simp) hloops hdecode k
  refine ⟨picture, ?_, ?_, ?_, ?_⟩
  · obtain ⟨path, s', -, hcall⟩ := (hcalls 0 5 (by decide) (2 ^ 32 - 1)).1 (.inl rfl)
    exact ⟨s', hcall⟩
  · exact (hcalls 0 5 (by decide) (2 ^ 32)).1 (.inl rfl)
  · exact (hcalls 1 0 (by decide) (2 ^ 32 - 1)).2 (by decide) (by decide)
  · exact (hcalls 1 0 (by decide) (2 ^ 32)).2 (by decide) (by decide)

end ImageSequence

end VectorDisplay
