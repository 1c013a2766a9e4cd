import VectorDisplay.Platform
import VectorDisplay.Proofs.Render
set_option autoImplicit false

namespace VectorDisplay

namespace Buffer

theorem take_capacity_toList (b : Buffer) : b.toList.take b.capacity = b.toList :=
  List.take_of_length_le (b.length_toList.trans_le b.size_le_capacity)

theorem isFull_iff (b : Buffer) : b.isFull = true ↔ b.size = b.capacity := decide_eq_true_iff

inductive Request where
  | push (sample : Sample)
  | copies (sample : Sample) (count : Nat)
  | made (count : Nat) (f : Nat → Sample)
  | fill (sample : Sample)

namespace Request

def serve : Request → Buffer → Nat × Buffer
  | push sample, b => b.push sample
  | copies sample count, b => b.appendCopies sample count
  | made count f, b => b.append count f
  | fill sample, b => b.fill sample

/-- What requests answer in turn, and the buffer that they leave. -/
def serveAll : List Request → Buffer → List Nat × Buffer
  | [], b => ([], b)
  | r :: rest, b =>
    let (count, b) := r.serve b
    let (counts, b) := serveAll rest b
    (count :: counts, b)

def count (capacity position : Nat) : Request → Nat
  | push _ => 1
  | copies _ count => count
  | made count _ => count
  | fill _ => capacity - position

def sample : Request → Nat → Sample
  | push sample => fun _ => sample
  | copies sample _ => fun _ => sample
  | made _ f => f
  | fill sample => fun _ => sample

/-- The samples that requests ask for from a position on. -/
def stream (capacity : Nat) : (position : Nat) → List Request → List Sample
  | _, [] => []
  | position, r :: rest =>
    written r.sample position (r.count capacity position) ++
      stream capacity (position + r.count capacity position) rest

section Runs

variable (r : Request) (b : Buffer) (before after : List Request) (capacity position : Nat)

theorem serve_eq : r.serve b = b.append (r.count b.capacity b.size) r.sample := by
  cases r <;> rfl

theorem toList_serve : (r.serve b).2.toList =
    (b.toList ++ written r.sample b.size (r.count b.capacity b.size)).take b.capacity := by
  rw [serve_eq, toList_append, List.take_append, take_capacity_toList, length_toList, take_written]
  rfl

theorem capacity_serve : (r.serve b).2.capacity = b.capacity := by rw [serve_eq, capacity_append]

theorem size_serve : (r.serve b).2.size = b.size + (r.serve b).1 := by
  rw [serve_eq, size_append, append_fst]

theorem stream_append : stream capacity position (before ++ after) =
    stream capacity position before ++
      stream capacity (position + (stream capacity position before).length) after := by
  induction before generalizing position with
  | nil => simp [stream]
  | cons r rest ih => simp [stream, ih, Nat.add_assoc]

theorem capacity_serveAll : (serveAll before b).2.capacity = b.capacity := by
  induction before generalizing b with
  | nil => rfl
  | cons r rest ih => simp [serveAll, ih, capacity_serve]

/-- A buffer holds the front of all that was asked for. -/
theorem toList_serveAll : (serveAll before b).2.toList =
    (b.toList ++ stream b.capacity b.size before).take b.capacity := by
  induction before generalizing b with
  | nil =>
    rw [stream, List.append_nil, take_capacity_toList]
    rfl
  | cons r rest ih =>
    have hserved := r.toList_serve b
    have hlength : (b.toList ++ written r.sample b.size (r.count b.capacity b.size)).length =
        b.size + r.count b.capacity b.size := by simp
    change (serveAll rest (r.serve b).2).2.toList = _
    rw [ih, capacity_serve, stream, ← List.append_assoc]
    rcases Nat.le_total (b.size + r.count b.capacity b.size) b.capacity with hfits | hfull
    · rw [List.take_of_length_le (hlength ▸ hfits)] at hserved
      rw [hserved, ← (r.serve b).2.length_toList, hserved, hlength]
    ·
      have hsize : (r.serve b).2.toList.length = b.capacity := by
        rw [hserved, List.length_take, hlength, Nat.min_eq_left hfull]
      rw [List.take_append_of_le_length hsize.ge, List.take_append_of_le_length (hlength ▸ hfull),
        hserved, List.take_take, Nat.min_self]

theorem size_serveAll_succ {requests : List Request} {k : Nat} (h : k < requests.length) :
    ∃ count, (serveAll requests b).1[k]? = some count ∧
      (serveAll (requests.take (k + 1)) b).2.size =
        (serveAll (requests.take k) b).2.size + count := by
  induction requests generalizing b k with
  | nil => cases h
  | cons r rest ih =>
    cases k with
    | zero => exact ⟨(r.serve b).1, rfl, r.size_serve b⟩
    | succ k => exact ih (r.serve b).2 (Nat.lt_of_succ_lt_succ h)

theorem getElem?_stream {i : Nat} (hlow : (stream capacity 0 before).length ≤ i)
    (hhigh : i < (stream capacity 0 (before ++ [r])).length) :
    (stream capacity 0 (before ++ r :: after))[i]? = some (r.sample i) := by
  obtain ⟨j, rfl⟩ := Nat.exists_eq_add_of_le hlow
  simp only [stream_append, stream, List.append_nil, List.length_append, length_written,
    Nat.add_lt_add_iff_left, Nat.zero_add] at hhigh
  rw [stream_append, List.getElem?_append_right hlow, Nat.add_sub_cancel_left, stream, Nat.zero_add,
    List.getElem?_append_left (by rwa [length_written]), written, List.getElem?_map,
    List.getElem?_range' hhigh, Nat.one_mul, Option.map_some]

end Runs

end Request

open Request in
/-- An empty buffer takes the front of what requests ask for, each sample at the position that it
was made for, and every request answers how much of its part was taken. -/
theorem serves_front [Memory] (storage : Storage) (capacity : Nat) (b : Buffer)
    (h : ofStorage storage capacity = .ok b) (requests : List Request) :
    ∃ counts after, serveAll requests b = (counts, after) ∧
      after.size ≤ capacity ∧ after.size + after.remaining = capacity ∧
      after.toList = (stream capacity 0 requests).take capacity ∧
      after.size = min capacity (stream capacity 0 requests).length ∧
      (∀ first r rest, requests = first ++ r :: rest →
        ∀ i < capacity, (stream capacity 0 first).length ≤ i →
          i < (stream capacity 0 (first ++ [r])).length → after.toList[i]? = some (r.sample i)) ∧
      (∀ k < requests.length, ∃ count, counts[k]? = some count ∧
        (serveAll (requests.take (k + 1)) b).2.size =
          (serveAll (requests.take k) b).2.size + count) ∧
      ((∃ handed, after.finish = .ok handed) ↔ after.size = capacity) ∧
      ∀ handed, after.finish = .ok handed → handed.samples.toList = after.toList := by
  obtain ⟨hcapacity, hempty⟩ := ofStorage_eq_ok h
  have hafter : (serveAll requests b).2.capacity = capacity :=
    (capacity_serveAll b requests).trans hcapacity
  have hlist : (serveAll requests b).2.toList = (stream capacity 0 requests).take capacity := by
    have hnone : b.toList = [] := by simp [toList, hempty]
    have hzero : b.size = 0 := by simp [size, hempty]
    rw [toList_serveAll, hnone, hzero, hcapacity, List.nil_append]
  refine ⟨_, _, rfl, hafter ▸ size_le_capacity _, (size_add_remaining _).trans hafter, hlist, ?_,
    ?_, fun k hk => size_serveAll_succ b hk, ?_, fun handed hfinish => ?_⟩
  · rw [← length_toList, hlist, List.length_take]
  · rintro first r rest rfl i hi hlow hhigh
    rw [hlist, List.getElem?_take_of_lt hi, getElem?_stream r first rest capacity hlow hhigh]
  · rw [← hafter, ← isFull_iff]
    constructor
    · rintro ⟨_, hfinish⟩
      exact (finish_eq_ok_iff.1 hfinish).1
    · intro hfull
      exact ⟨_, finish_eq_ok_iff.2 ⟨hfull, rfl⟩⟩
  · rw [(finish_eq_ok_iff.1 hfinish).2]
    rfl

open scoped Platform in
open Request in
theorem serves_front_clipped :
    ∃ b after, ofStorage (.ofArray #[⟨7, 7, 255⟩]) 5 = .ok b ∧
      serveAll [.copies ⟨1, 1, 255⟩ 3, .made (2 ^ 64 - 1) fun i => ⟨.ofNat i, 0, 255⟩,
        .push ⟨9, 9, 255⟩, .fill ⟨0, 0, 0⟩] b = ([3, 2, 0, 0], after) ∧
      after.toList = [⟨1, 1, 255⟩, ⟨1, 1, 255⟩, ⟨1, 1, 255⟩, ⟨3, 0, 255⟩, ⟨4, 0, 255⟩] ∧
      ∃ handed, after.finish = .ok handed ∧ handed.samples.toList = after.toList := by
  obtain ⟨b, hb⟩ : ∃ b, ofStorage (.ofArray #[⟨7, 7, 255⟩]) 5 = .ok b := ⟨_, rfl⟩
  obtain ⟨counts, after, hserved, -, -, -, -, -, -, hfinishes, hhanded⟩ := serves_front _ _ b hb
    [.copies ⟨1, 1, 255⟩ 3, .made (2 ^ 64 - 1) fun i => ⟨.ofNat i, 0, 255⟩, .push ⟨9, 9, 255⟩,
      .fill ⟨0, 0, 0⟩]
  cases hb
  cases hserved
  obtain ⟨handed, hfinish⟩ := hfinishes.2 rfl
  exact ⟨_, _, rfl, rfl, rfl, handed, hfinish, hhanded handed hfinish⟩

end Buffer

end VectorDisplay
