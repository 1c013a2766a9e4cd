import Mathlib.Algebra.Order.Ring.Nat
import VectorDisplay.Drawing
import VectorDisplay.Proofs.Buffer
set_option autoImplicit false

namespace VectorDisplay

namespace Batch

def total (batches : List Batch) : Nat := (batches.map count).sum

@[simp] theorem total_nil : total [] = 0 := rfl

@[simp] theorem total_cons (b : Batch) (rest : List Batch) :
    total (b :: rest) = b.count + total rest := by
  simp [total]

@[simp] theorem total_append (xs ys : List Batch) : total (xs ++ ys) = total xs + total ys := by
  simp [total]

/-- The samples of batches that follow one another from a position on. -/
def stream : List Batch → (start : Nat) → List Sample
  | [], _ => []
  | b :: rest, start => Buffer.written b.sample start b.count ++ stream rest (start + b.count)

@[simp] theorem length_stream (batches : List Batch) (start : Nat) :
    (stream batches start).length = total batches := by
  induction batches generalizing start with
  | nil => rfl
  | cons b rest ih => simp [stream, ih]

theorem stream_append (xs ys : List Batch) (start : Nat) :
    stream (xs ++ ys) start = stream xs start ++ stream ys (start + total xs) := by
  induction xs generalizing start with
  | nil => simp [stream]
  | cons b rest ih => simp [stream, ih, Nat.add_assoc]

theorem exists_of_mem_stream {batches : List Batch} {start : Nat} {s : Sample}
    (h : s ∈ stream batches start) : ∃ b ∈ batches, ∃ i, s = b.sample i := by
  induction batches generalizing start with
  | nil => simp [stream] at h
  | cons b rest ih =>
    rcases List.mem_append.1 h with h | h
    · obtain ⟨i, -, rfl⟩ := List.mem_map.1 h
      exact ⟨b, by simp, i, rfl⟩
    · obtain ⟨c, hc, i, rfl⟩ := ih h
      exact ⟨c, by simp [hc], i, rfl⟩

/-- What laying batches makes of a buffer. -/
structure Laid (batches : List Batch) (before after : Buffer) (cut : Option Cut) : Prop where
  toList_eq : after.toList =
    before.toList ++ (stream batches before.size).take before.remaining
  capacity_eq : after.capacity = before.capacity
  cut_eq_none_iff : cut = none ↔ total batches ≤ before.remaining

namespace Laid

variable {xs ys : List Batch} {a b c : Buffer} {cut : Option Cut}

theorem size_eq (h : Laid xs a b cut) : b.size = a.size + min a.remaining (total xs) := by
  simp [← Buffer.length_toList, h.toList_eq]

theorem remaining_eq (h : Laid xs a b cut) : b.remaining = a.remaining - total xs := by
  have ha := a.size_add_remaining
  have hb := b.size_add_remaining
  have := h.size_eq
  have := h.capacity_eq
  omega

theorem nil (a : Buffer) : Laid [] a a none where
  toList_eq := by simp [stream]
  capacity_eq := rfl
  cut_eq_none_iff := by simp

theorem append (h : Laid xs a b none) (hs : Laid ys b c cut) : Laid (xs ++ ys) a c cut where
  toList_eq := by
    have hle := h.cut_eq_none_iff.1 rfl
    have hsize : b.size = a.size + total xs := by
      rw [h.size_eq, Nat.min_eq_right hle]
    have htake : (stream xs a.size).take a.remaining = stream xs a.size :=
      List.take_of_length_le (by simpa using hle)
    rw [hs.toList_eq, h.toList_eq, htake, hsize, h.remaining_eq, stream_append,
      List.take_append, htake, length_stream, List.append_assoc]
  capacity_eq := hs.capacity_eq.trans h.capacity_eq
  cut_eq_none_iff := by
    have hle := h.cut_eq_none_iff.1 rfl
    rw [hs.cut_eq_none_iff, h.remaining_eq, total_append]
    omega

theorem stop {k k' : Cut} (h : Laid xs a b (some k)) : Laid (xs ++ ys) a b (some k') where
  toList_eq := by
    have hlt : a.remaining < total xs := by
      have := h.cut_eq_none_iff
      simp only [reduceCtorEq, false_iff, Nat.not_le] at this
      exact this
    rw [h.toList_eq, stream_append, List.take_append_of_le_length (by simp; omega)]
  capacity_eq := h.capacity_eq
  cut_eq_none_iff := by
    have := h.cut_eq_none_iff
    simp only [reduceCtorEq, false_iff, Nat.not_le, total_append] at this ⊢
    omega

end Laid

theorem lay_snd (b : Batch) (buffer : Buffer) :
    (b.lay buffer).2 =
      if min b.count buffer.remaining < b.count then
        some ⟨b.count, min b.count buffer.remaining, b.count - min b.count buffer.remaining, 0⟩
      else none := rfl

theorem laid_lay (b : Batch) (buffer : Buffer) :
    Laid [b] buffer (b.lay buffer).1 (b.lay buffer).2 where
  toList_eq := by simp [lay, stream, Buffer.take_written]
  capacity_eq := rfl
  cut_eq_none_iff := by
    rw [lay_snd]
    split <;> simp <;> omega

theorem laid_layAll (batches : List Batch) (buffer : Buffer) :
    Laid batches buffer (layAll batches buffer).1 (layAll batches buffer).2 := by
  induction batches generalizing buffer with
  | nil => exact Laid.nil buffer
  | cons b rest ih =>
    have hb := laid_lay b buffer
    unfold layAll
    split
    · next after cut hlay =>
      rw [hlay] at hb
      exact hb.stop
    · next after hlay =>
      rw [hlay] at hb
      exact hb.append (ih after)

end Batch

end VectorDisplay
