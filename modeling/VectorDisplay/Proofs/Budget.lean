import Mathlib.Algebra.Order.Floor.Ring
import VectorDisplay.Proofs.Drawing.Exact
/-!
A budget in exact arithmetic. It has granted what was due so far, rounded down, and carries the rest,
which is also what it has drifted. Main statement: this holds after every demand, as long as a word can
count the samples, and at the scale of a capacity all demands together take the capacity to its last
place.
-/

set_option autoImplicit false

namespace VectorDisplay

namespace Budget

section Runs

variable {α : Type} [Amount α]

def grantAll : Budget α → List α → Checked (List ℕ × Budget α)
  | b, [] => .ok ([], b)
  | b, demand :: rest =>
    match b.grant demand with
    | .error fault => .error fault
    | .ok (count, b) =>
      match b.grantAll rest with
      | .error fault => .error fault
      | .ok (counts, b) => .ok (count :: counts, b)

variable {b b' : Budget α} {demand : α} {demands : List α} {count : ℕ} {counts : List ℕ}

theorem granted_of_grant (h : b.grant demand = .ok (count, b')) :
    b'.granted = b.granted + count := by
  unfold grant at h
  dsimp only at h
  split at h
  · cases h
  · next hword =>
    cases h
    exact (word_eq_ok_iff.1 hword).2

theorem granted_of_grantAll (h : b.grantAll demands = .ok (counts, b')) :
    b'.granted = b.granted + counts.sum := by
  induction demands generalizing b counts with
  | nil =>
    cases h
    rfl
  | cons demand rest ih =>
    unfold grantAll at h
    split at h
    · cases h
    · next count middle hgrant =>
      split at h
      · cases h
      · next counts _ hrest =>
        cases h
        rw [ih hrest, granted_of_grant hgrant, List.sum_cons, Nat.add_assoc]

end Runs

/-- A budget that has served demands of the given sum and nothing was lost in rounding. -/
structure Serving (b : Budget ℚ) (scale served : ℚ) : Prop where
  scale_eq : b.scale = scale
  due_eq : b.due = scale * served
  granted_eq : b.granted = ⌊scale * served⌋₊
  carry_eq : b.carry = scale * served - ⌊scale * served⌋₊

theorem serving_ofScale (scale : ℚ) : (ofScale scale).Serving scale 0 := by
  constructor <;> simp [ofScale, Amount.zero, Amount.ofNat]

namespace Serving

variable {b : Budget ℚ} {scale served demand : ℚ} {demands : List ℚ}

theorem drift_eq (h : b.Serving scale served) : b.drift = b.carry := by
  change b.due - (b.granted : ℚ) = b.carry
  rw [h.due_eq, h.granted_eq, h.carry_eq]

theorem carry_eq_fract (h : b.Serving scale served) (hscale : 0 ≤ scale) (hserved : 0 ≤ served) :
    b.carry = Int.fract (scale * served) := by
  rw [h.carry_eq, natCast_floor_eq_intCast_floor (mul_nonneg hscale hserved), Int.self_sub_floor]

theorem roundDemand_eq (h : b.Serving scale served) (hscale : 0 ≤ scale) (hserved : 0 ≤ served)
    (hdemand : 0 ≤ demand) :
    ∃ count, roundDemand demand b.scale b.carry =
        (count, scale * (served + demand) - ⌊scale * (served + demand)⌋₊) ∧
      b.granted + count = ⌊scale * (served + demand)⌋₊ := by
  have hmono : ⌊scale * served⌋₊ ≤ ⌊scale * (served + demand)⌋₊ :=
    Nat.floor_mono (mul_le_mul_of_nonneg_left (le_add_of_nonneg_right hdemand) hscale)
  refine ⟨⌊scale * (served + demand)⌋₊ - ⌊scale * served⌋₊, ?_, ?_⟩
  · rw [h.scale_eq, h.carry_eq, roundDemand_exact hscale hserved hdemand]
  · rw [h.granted_eq, Nat.add_sub_cancel' hmono]

/-- A demand is granted as long as a word can count the samples of the frame. -/
theorem exists_grant (h : b.Serving scale served) (hscale : 0 ≤ scale) (hserved : 0 ≤ served)
    (hdemand : 0 ≤ demand) (hword : ⌊scale * (served + demand)⌋₊ < wordLimit) :
    ∃ count b', b.grant demand = .ok (count, b') ∧ b'.Serving scale (served + demand) := by
  obtain ⟨count, hround, htotal⟩ := h.roundDemand_eq hscale hserved hdemand
  have hfits : word (b.granted + count) = .ok (b.granted + count) :=
    word_eq_ok_iff.2 ⟨htotal ▸ hword, rfl⟩
  have hgrant : b.grant demand = .ok (count, ⟨b.scale,
      scale * (served + demand) - ⌊scale * (served + demand)⌋₊,
      Amount.add b.due (Amount.mul (Amount.clip demand) b.scale), b.granted + count⟩) := by
    simp only [Budget.grant, hround, hfits]
  have hdue : b.due + Amount.clip demand * b.scale = scale * (served + demand) := by
    rw [clip_of_nonneg hdemand, h.due_eq, h.scale_eq]
    ring
  exact ⟨count, _, hgrant, h.scale_eq, hdue, htotal, rfl⟩

theorem grant_eq_error (h : b.Serving scale served) (hscale : 0 ≤ scale) (hserved : 0 ≤ served)
    (hdemand : 0 ≤ demand) (hword : wordLimit ≤ ⌊scale * (served + demand)⌋₊) :
    b.grant demand = .error .overflow := by
  obtain ⟨count, hround, htotal⟩ := h.roundDemand_eq hscale hserved hdemand
  have hover : word (b.granted + count) = .error .overflow :=
    if_neg (Nat.not_lt.2 (htotal ▸ hword))
  simp only [Budget.grant, hround, hover]

theorem exists_grantAll (h : b.Serving scale served) (hscale : 0 ≤ scale) (hserved : 0 ≤ served)
    (hdemands : ∀ d ∈ demands, 0 ≤ d) (hword : ⌊scale * (served + demands.sum)⌋₊ < wordLimit) :
    ∃ counts b', b.grantAll demands = .ok (counts, b') ∧
      b'.Serving scale (served + demands.sum) := by
  induction demands generalizing b served with
  | nil => exact ⟨[], b, rfl, by simpa using h⟩
  | cons demand rest ih =>
    obtain ⟨hdemand, hrest⟩ := List.forall_mem_cons.1 hdemands
    rw [List.sum_cons, ← add_assoc] at hword ⊢
    have hmono : ⌊scale * (served + demand)⌋₊ ≤ ⌊scale * (served + demand + rest.sum)⌋₊ :=
      Nat.floor_mono (mul_le_mul_of_nonneg_left
        (le_add_of_nonneg_right (List.sum_nonneg hrest)) hscale)
    obtain ⟨count, middle, hgrant, hserving⟩ :=
      h.exists_grant hscale hserved hdemand (lt_of_le_of_lt hmono hword)
    obtain ⟨counts, b', hgrants, hend⟩ :=
      ih hserving (add_nonneg hserved hdemand) hrest hword
    refine ⟨count :: counts, b', ?_, hend⟩
    unfold Budget.grantAll
    simp only [hgrant, hgrants]

end Serving

theorem exists_grantAll_ofScale {scale : ℚ} {demands : List ℚ} (hscale : 0 ≤ scale)
    (hdemands : ∀ d ∈ demands, 0 ≤ d) (hword : scale * demands.sum < 2 ^ 64) :
    ∃ counts b, (ofScale scale).grantAll demands = .ok (counts, b) ∧
      b.Serving scale demands.sum ∧ counts.sum = b.granted := by
  have hdue : 0 ≤ scale * (0 + demands.sum) := by
    rw [zero_add]
    exact mul_nonneg hscale (List.sum_nonneg hdemands)
  have hfloor : ⌊scale * (0 + demands.sum)⌋₊ < wordLimit := by
    rw [Nat.floor_lt hdue, zero_add]
    exact_mod_cast hword
  obtain ⟨counts, b, hgrants, hserving⟩ :=
    (serving_ofScale scale).exists_grantAll hscale le_rfl hdemands hfloor
  rw [zero_add] at hserving
  refine ⟨counts, b, hgrants, hserving, ?_⟩
  rw [granted_of_grantAll hgrants]
  exact (Nat.zero_add _).symm

/-- What was granted after every demand is what was due until then, rounded down, and what was not
granted is carried, as long as a word can count the samples. The scale of a capacity hands it out to its
last place. -/
theorem granted_eq_floor (scale : ℚ) (hscale : 0 ≤ scale) (demands : List ℚ)
    (hdemands : ∀ d ∈ demands, 0 ≤ d) :
    (∀ n, scale * (demands.take n).sum < 2 ^ 64 →
      ∃ counts b, (ofScale scale).grantAll (demands.take n) = .ok (counts, b) ∧
        b.granted = ⌊scale * (demands.take n).sum⌋₊ ∧ counts.sum = b.granted ∧
        b.carry = Int.fract (scale * (demands.take n).sum) ∧
        b.drift = Int.fract (scale * (demands.take n).sum) ∧ 0 ≤ b.carry ∧ b.carry < 1) ∧
    ∀ capacity : ℕ, capacity < 2 ^ 64 → 0 < demands.sum → scale = capacity / demands.sum →
      ofTotal demands.sum capacity = some (ofScale scale) ∧
      ∃ counts b, (ofScale scale).grantAll demands = .ok (counts, b) ∧ b.granted = capacity ∧
        counts.sum = capacity := by
  refine ⟨fun n hword => ?_, fun capacity hcapacity hpos heq => ?_⟩
  · have htaken : ∀ d ∈ demands.take n, 0 ≤ d := fun d hd => hdemands d (List.mem_of_mem_take hd)
    obtain ⟨counts, b, hgrants, hserving, hsum⟩ := exists_grantAll_ofScale hscale htaken hword
    have hcarry := hserving.carry_eq_fract hscale (List.sum_nonneg htaken)
    refine ⟨counts, b, hgrants, hserving.granted_eq, hsum, hcarry, hserving.drift_eq.trans hcarry,
      ?_, ?_⟩
    · rw [hcarry]
      exact Int.fract_nonneg _
    · rw [hcarry]
      exact Int.fract_lt_one _
  · have hdue : scale * demands.sum = capacity := by
      rw [heq, div_mul_cancel₀ _ hpos.ne']
    have hword : scale * demands.sum < 2 ^ 64 := by
      rw [hdue]
      exact_mod_cast hcapacity
    obtain ⟨counts, b, hgrants, hserving, hsum⟩ := exists_grantAll_ofScale hscale hdemands hword
    have hgranted : b.granted = capacity := by
      rw [hserving.granted_eq, hdue, Nat.floor_natCast]
    refine ⟨?_, counts, b, hgrants, hgranted, hsum.trans hgranted⟩
    have hscaled : scaleFor demands.sum capacity = some scale := by
      rw [heq]
      exact if_pos (decide_eq_true hpos)
    rw [ofTotal, hscaled, Option.map_some]

theorem granted_eq_floor_third :
    (∃ counts b, (ofScale (20 / 9 : ℚ)).grantAll [1, 1 / 2] = .ok (counts, b) ∧ b.granted = 3 ∧
      counts.sum = b.granted ∧ b.carry = 1 / 3 ∧ b.drift = 1 / 3) ∧
    ofTotal (9 / 2 : ℚ) 10 = some (ofScale (20 / 9)) ∧
    ∃ counts b, (ofScale (20 / 9 : ℚ)).grantAll [1, 1 / 2, 0, 3] = .ok (counts, b) ∧
      b.granted = 10 ∧ counts.sum = 10 := by
  obtain ⟨hpart, hwhole⟩ := granted_eq_floor (20 / 9) (by decide +kernel) [1, 1 / 2, 0, 3]
    (by decide +kernel)
  have hfloor : ⌊(20 / 9 : ℚ) * [1, 1 / 2].sum⌋₊ = 3 := by decide +kernel
  have hfract : Int.fract ((20 / 9 : ℚ) * [1, 1 / 2].sum) = 1 / 3 := by decide +kernel
  have hsum : [1, 1 / 2, 0, 3].sum = (9 / 2 : ℚ) := by decide +kernel
  obtain ⟨counts, b, hgrants, hgranted, hcounts, hcarry, hdrift, -⟩ := hpart 2 (by decide +kernel)
  obtain ⟨hscale, hall⟩ := hwhole 10 (by decide) (by decide +kernel) (by decide +kernel)
  exact ⟨⟨counts, b, hgrants, hgranted.trans hfloor, hcounts, hcarry.trans hfract,
    hdrift.trans hfract⟩, hsum ▸ hscale, hall⟩

/-- Two demands of one unit, each of which is due half of all words. -/
theorem granted_past_word :
    (0 : ℚ) ≤ 2 ^ 63 ∧ (∀ d ∈ [1, 1], (0 : ℚ) ≤ d) ∧
      (ofScale (2 ^ 63 : ℚ)).grantAll [1, 1] = .error .overflow ∧
      ¬ ∃ counts b, (ofScale (2 ^ 63 : ℚ)).grantAll [1, 1] = .ok (counts, b) ∧
        b.granted = ⌊(2 ^ 63 : ℚ) * [1, 1].sum⌋₊ := by
  have hscale : (0 : ℚ) ≤ 2 ^ 63 := by positivity
  obtain ⟨count, b, hfirst, hserving⟩ := (serving_ofScale (2 ^ 63)).exists_grant hscale le_rfl
    (zero_le_one' ℚ) (by decide +kernel)
  have hsecond := hserving.grant_eq_error hscale (by norm_num) (zero_le_one' ℚ) (by decide +kernel)
  have hover : (ofScale (2 ^ 63 : ℚ)).grantAll [1, 1] = .error .overflow := by
    simp only [grantAll, hfirst, hsecond]
  refine ⟨hscale, by decide +kernel, hover, ?_⟩
  rintro ⟨counts, b, hgrants, -⟩
  rw [hover] at hgrants
  cases hgrants

end Budget

end VectorDisplay
