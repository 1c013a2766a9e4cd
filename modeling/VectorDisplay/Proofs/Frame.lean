import Mathlib.Data.List.Induction
import VectorDisplay.Frame
import VectorDisplay.Proofs.Codec
set_option autoImplicit false

namespace VectorDisplay

namespace Frame

/-- The records of frames, one after the other. -/
def stream (frames : List Frame) : ByteArray :=
  frames.foldl (fun bytes frame => bytes ++ frame.bytes) .empty

theorem stream_concat (frames : List Frame) (frame : Frame) :
    stream (frames ++ [frame]) = stream frames ++ frame.bytes := by
  simp [stream]

theorem stream_append (frames more : List Frame) :
    stream (frames ++ more) = stream frames ++ stream more := by
  induction more using List.reverseRecOn with
  | nil => simp [stream]
  | append_singleton more frame ih =>
    rw [← List.append_assoc, stream_concat, stream_concat, ih, ByteArray.append_assoc]

def slice (frames : List Frame) (i : Nat) : ByteArray :=
  (stream frames).extract (stream (frames.take i)).size (stream (frames.take (i + 1))).size

theorem slice_eq {frames : List Frame} {i : Nat} {f : Frame} (h : frames[i]? = some f) :
    slice frames i = f.bytes := by
  obtain ⟨hi, rfl⟩ := List.getElem?_eq_some_iff.1 h
  have hnext : stream (frames.take (i + 1)) = stream (frames.take i) ++ frames[i].bytes := by
    rw [List.take_succ_eq_append_getElem hi, stream_concat]
  have hall : stream frames = stream (frames.take (i + 1)) ++ stream (frames.drop (i + 1)) := by
    rw [← stream_append, List.take_append_drop]
  rw [slice, hall, ByteArray.extract_append_size_left, hnext]
  exact ByteArray.extract_append_eq_right rfl ByteArray.size_append

theorem unpack_slice {frames : List Frame} {i : Nat} {f : Frame} (h : frames[i]? = some f) :
    Sample.unpack (slice frames i) = .ok f.samples := by
  rw [slice_eq h, bytes, Sample.unpack_pack_empty]

def dot : Frame where
  storage := .ofArray #[⟨9, 9, 9⟩]
  width := 1
  height := 1
  time := none
  report := { mode := .raster, pathSamples := 1 }

end Frame

end VectorDisplay
