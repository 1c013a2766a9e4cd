import VectorDisplay.Error
import VectorDisplay.Sample
/-!
Sample storage and buffers. A buffer is an append-only sequence of at most `capacity` samples; an
append is clipped to the free space and says how much it wrote. Storage is the memory behind a
buffer: it outlives the buffer and may be larger than the next buffer needs.
-/

set_option autoImplicit false

namespace VectorDisplay

/-- The allocator: whether it finds so many bytes. -/
class Memory where
  grants : (bytes : Nat) → Bool

structure Storage where
  samples : Array Sample := #[]
  room : Nat := samples.size
  size_le_room : samples.size ≤ room := by simp

namespace Storage

def empty : Storage := {}

def ofArray (samples : Array Sample) : Storage := { samples }

def sampleBytes : Nat := 3

def refusal [Memory] (n : Nat) : Option String :=
  if addressLimit < sampleBytes * n then
    some ("memory allocation failed because the computed capacity exceeded " ++
      "the collection's maximum")
  else if Memory.grants (sampleBytes * n) then none
  else some "memory allocation failed because the memory allocator returned an error"

end Storage

/-- An append-only sequence of at most `capacity` samples. -/
structure Buffer where
  samples : Array Sample
  capacity : Nat
  room : Nat
  size_le_capacity : samples.size ≤ capacity
  capacity_le_room : capacity ≤ room

namespace Buffer

/-- An empty buffer in old storage, which grows where it is too small. -/
def ofStorage [Memory] (s : Storage) (capacity : Nat) : Except Error Buffer :=
  if h : capacity ≤ s.room then .ok ⟨#[], capacity, s.room, Nat.zero_le _, h⟩
  else match Storage.refusal capacity with
    | some reason =>
      .error ((Error.of (.resource "sample_buffer" reason)).detail "capacity" (toString capacity))
    | none => .ok ⟨#[], capacity, capacity, Nat.zero_le _, Nat.le_refl _⟩

def ofCapacity [Memory] (capacity : Nat) : Except Error Buffer := ofStorage Storage.empty capacity

def size (b : Buffer) : Nat := b.samples.size

def remaining (b : Buffer) : Nat := b.capacity - b.samples.size

def isFull (b : Buffer) : Bool := b.samples.size = b.capacity

def extend (f : Nat → Sample) : Nat → Array Sample → Array Sample
  | 0, samples => samples
  | n + 1, samples => extend f n (samples.push (f samples.size))

@[simp] theorem size_extend (f : Nat → Sample) (n : Nat) (samples : Array Sample) :
    (extend f n samples).size = samples.size + n := by
  induction n generalizing samples with
  | zero => rfl
  | succ n ih => simp [extend, ih]; omega

/-- Appends up to `count` samples, each made from the index it gets. The number written comes
first. -/
def append (b : Buffer) (count : Nat) (f : Nat → Sample) : Nat × Buffer :=
  let n := min count b.remaining
  (n, { b with
    samples := extend f n b.samples
    size_le_capacity := by
      have := b.size_le_capacity
      simp only [n, size_extend, remaining]; omega })

def appendCopies (b : Buffer) (sample : Sample) (count : Nat) : Nat × Buffer :=
  b.append count fun _ => sample

def push (b : Buffer) (sample : Sample) : Nat × Buffer := b.appendCopies sample 1

def fill (b : Buffer) (sample : Sample) : Nat × Buffer := b.appendCopies sample b.remaining

def toStorage (b : Buffer) : Storage :=
  ⟨b.samples, b.room, Nat.le_trans b.size_le_capacity b.capacity_le_room⟩

def finish (b : Buffer) : Except Error Storage :=
  if b.isFull then .ok b.toStorage
  else .error (.of (.capacity b.capacity b.size))

end Buffer

end VectorDisplay
