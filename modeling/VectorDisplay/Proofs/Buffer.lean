import VectorDisplay.Sample.Buffer
set_option autoImplicit false

namespace VectorDisplay

namespace Buffer

def toList (b : Buffer) : List Sample := b.samples.toList

def holding (samples : Array Sample) (free : Nat) : Buffer :=
  ⟨samples, samples.size + free, samples.size + free, Nat.le_add_right _ _, Nat.le_refl _⟩

@[simp] theorem length_toList (b : Buffer) : b.toList.length = b.size := by
  simp [toList, size]

/-- The samples of `n` positions from `start` on. -/
def written (f : Nat → Sample) (start n : Nat) : List Sample := (List.range' start n).map f

@[simp] theorem length_written (f : Nat → Sample) (start n : Nat) :
    (written f start n).length = n := by
  simp [written]

theorem take_written (f : Nat → Sample) (start n k : Nat) :
    (written f start n).take k = written f start (min n k) := by
  unfold written
  rw [← List.map_take]
  rcases Nat.le_total n k with h | h
  · rw [List.take_range'_of_length_le h, Nat.min_eq_left h]
  · rw [List.take_range'_of_length_ge h, Nat.min_eq_right h]

theorem written_const (s : Sample) (start n : Nat) :
    written (fun _ => s) start n = List.replicate n s := by
  unfold written
  simp [List.map_const']

theorem toList_extend (f : Nat → Sample) (n : Nat) (samples : Array Sample) :
    (extend f n samples).toList = samples.toList ++ written f samples.size n := by
  induction n generalizing samples with
  | zero => simp [extend, written]
  | succ n ih => simp [extend, ih, written, List.range'_succ]

section Append

variable (b : Buffer) (count : Nat) (f : Nat → Sample)

@[simp] theorem append_fst : (b.append count f).1 = min count b.remaining := rfl

@[simp] theorem capacity_append : (b.append count f).2.capacity = b.capacity := rfl

@[simp] theorem toList_append :
    (b.append count f).2.toList = b.toList ++ written f b.size (min count b.remaining) :=
  toList_extend f _ b.samples

@[simp] theorem size_append :
    (b.append count f).2.size = b.size + min count b.remaining := by
  simp [← length_toList]

@[simp] theorem remaining_append :
    (b.append count f).2.remaining = b.remaining - count := by
  have h := b.size_append count f
  have hr : ∀ c : Buffer, c.remaining = c.capacity - c.size := fun _ => rfl
  have := hr b
  simp only [hr, h, capacity_append]
  omega

end Append

@[simp] theorem fill_fst (b : Buffer) (s : Sample) : (b.fill s).1 = b.remaining := by
  simp [fill, appendCopies]

@[simp] theorem capacity_fill (b : Buffer) (s : Sample) :
    (b.fill s).2.capacity = b.capacity := rfl

@[simp] theorem toList_fill (b : Buffer) (s : Sample) :
    (b.fill s).2.toList = b.toList ++ List.replicate b.remaining s := by
  simp [fill, appendCopies, written_const]

theorem size_add_remaining (b : Buffer) : b.size + b.remaining = b.capacity := by
  have := b.size_le_capacity
  simp only [size, remaining]
  omega

theorem size_fill (b : Buffer) (s : Sample) : (b.fill s).2.size = b.capacity := by
  have := b.size_add_remaining
  simp only [fill, appendCopies, size_append]
  omega

theorem isFull_fill (b : Buffer) (s : Sample) : (b.fill s).2.isFull = true :=
  decide_eq_true (b.size_fill s)

end Buffer

end VectorDisplay
