import VectorDisplay.Sample.Buffer
set_option autoImplicit false

namespace VectorDisplay

structure Pool where
  idle : List Storage
  limit : Nat

namespace Pool

def ofLimit (limit : Nat) : Pool := ⟨[], limit⟩

def recordBytes : Nat := 24

def reserve (limit : Nat) : Checked Pool := (setAside limit recordBytes).map fun _ => ofLimit limit

/-- An empty buffer of the given capacity. A refused request loses the storage it took. -/
def acquire [Memory] (p : Pool) (capacity : Nat) : Except Error Buffer × Pool :=
  match p.idle with
  | [] => (Buffer.ofStorage Storage.empty capacity, p)
  | storage :: idle => (Buffer.ofStorage storage capacity, { p with idle })

/-- Takes storage back. Storage without memory, and storage beyond the limit, is let go. -/
def recycle (p : Pool) (storage : Storage) : Pool :=
  if storage.room = 0 then p
  else if p.idle.length < p.limit then { p with idle := p.idle ++ [storage] }
  else p

def clear (p : Pool) : Pool := { p with idle := [] }

end Pool

end VectorDisplay
