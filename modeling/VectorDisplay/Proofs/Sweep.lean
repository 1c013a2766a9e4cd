import VectorDisplay.Proofs.Drawing.Laying
import VectorDisplay.Sweep
set_option autoImplicit false

namespace VectorDisplay

namespace Sweep

theorem weight_eq (b : UInt8) : weight b = (b.toNat + 1) ^ 3 := by
  simp [weight, Nat.pow_succ]

theorem weight_le (b : UInt8) : weight b ≤ 2 ^ 24 := by
  have hb := b.toNat_lt
  rw [weight_eq]
  calc (b.toNat + 1) ^ 3 ≤ 256 ^ 3 := Nat.pow_le_pow_left (by omega) 3
    _ = 2 ^ 24 := by decide

end Sweep

namespace SweepStyle

open Sweep

variable (s : SweepStyle) (p : Picture)

theorem total_eq_sum :
    s.total p = ((List.range s.size).map fun k => weight (s.cell p k).brightness).sum := by
  have h (n : Nat) :
      n.fold (fun k _ sum => sum + weight (s.cell p k).brightness) 0 =
        ((List.range n).map fun k => weight (s.cell p k).brightness).sum := by
    induction n with
    | zero => rfl
    | succ n ih => simp [Nat.fold_succ, List.range_succ, ih]
  exact h s.size

theorem total_le : s.total p ≤ s.size * 2 ^ 24 := by
  rw [total_eq_sum]
  have h (ks : List Nat) :
      (ks.map fun k => weight (s.cell p k).brightness).sum ≤ ks.length * 2 ^ 24 := by
    induction ks with
    | nil => simp
    | cons k rest ih =>
      have := weight_le (s.cell p k).brightness
      simp only [List.map_cons, List.sum_cons, List.length_cons]
      omega
  simpa using h (List.range s.size)

def batch (total capacity k : Nat) : Batch :=
  ⟨share (weight (s.cell p k).brightness) capacity total, .on, s.variants (s.cell p k)⟩

variable {s p}

theorem drawFrom_succ (total capacity left : Nat) (buffer : Buffer) :
    s.drawFrom p total capacity (left + 1) buffer =
      match (s.batch p total capacity (s.size - (left + 1))).lay buffer with
      | (after, some cut) => (after, some { cut with skipped := left })
      | (after, none) => s.drawFrom p total capacity left after := by
  have hlay (b : Batch) : b.lay buffer = ((buffer.append b.count b.sample).2,
      if (buffer.append b.count b.sample).1 < b.count then
        some ⟨b.count, (buffer.append b.count b.sample).1,
          b.count - (buffer.append b.count b.sample).1, 0⟩
      else none) := rfl
  rw [hlay]
  by_cases h : (buffer.append (s.batch p total capacity (s.size - (left + 1))).count
      (s.batch p total capacity (s.size - (left + 1))).sample).1 <
        (s.batch p total capacity (s.size - (left + 1))).count
  · rw [if_pos h]
    exact if_pos h
  · rw [if_neg h]
    exact if_neg h

theorem laid_drawFrom {total capacity left : Nat} {buffer after : Buffer} {cut : Option Cut}
    (hleft : left ≤ s.size) (h : s.drawFrom p total capacity left buffer = (after, cut)) :
    Batch.Laid ((List.range' (s.size - left) left).map (s.batch p total capacity))
      buffer after cut := by
  induction left generalizing buffer with
  | zero =>
    cases h
    exact Batch.Laid.nil _
  | succ left ih =>
    have hnext : s.size - (left + 1) + 1 = s.size - left := by omega
    have hb := Batch.laid_lay (s.batch p total capacity (s.size - (left + 1))) buffer
    rw [List.range'_succ, List.map_cons, hnext, ← List.singleton_append]
    rw [drawFrom_succ] at h
    split at h
    · next hlay =>
      cases h
      rw [hlay] at hb
      exact hb.stop
    · next hlay =>
      rw [hlay] at hb
      exact hb.append (ih (by omega) h)

theorem draw_eq_ok {buffer : Buffer} {swept : Swept} (h : s.draw p buffer = .ok swept) :
    ∃ drawn cut,
      s.drawFrom p (s.total p) buffer.remaining s.size buffer = (drawn, cut) ∧
      s.total p < wordLimit ∧ swept.total = s.total p ∧
      swept.buffer = (drawn.fill (.ofPlace s.park .off)).2 ∧
      swept.report = { mode := .raster, demand := Float.ofNat (s.total p)
                       scale := Float.ofNat buffer.remaining / Float.ofNat (s.total p)
                       pathSamples := drawn.size - buffer.size
                       fillSamples := drawn.remaining, cut := cut } := by
  unfold draw at h
  split at h
  · cases h
  · next total hword =>
    obtain ⟨hlt, rfl⟩ := word_eq_ok_iff.1 hword
    cases h
    exact ⟨_, _, rfl, hlt, rfl, rfl, by simp⟩

theorem exists_draw_eq_ok (hsize : s.size * 2 ^ 24 < wordLimit) (buffer : Buffer) :
    ∃ swept, s.draw p buffer = .ok swept := by
  have hle := s.total_le p
  have hword : word (s.total p) = .ok (s.total p) := word_eq_ok_iff.2 ⟨by omega, rfl⟩
  unfold draw
  rw [hword]
  exact ⟨_, rfl⟩

end SweepStyle

end VectorDisplay
