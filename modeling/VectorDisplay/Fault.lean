/-!
A computation with no result. Word arithmetic that leaves its range, room beyond all memory, a broken precondition, a read
outside an image and a wait for a partner who never comes all end the run; none of them is an
error that a caller may report and survive.
-/

set_option autoImplicit false

namespace VectorDisplay

inductive Fault where
  | overflow
  | precondition
  | outside
  /-- The step waits for a partner who never acts. -/
  | stalled
  deriving DecidableEq, Repr

/-- A computation that ends in a result or in a fault. -/
abbrev Checked := Except Fault

/-- Two computations that end alike: in results that are related, or in the same fault. -/
def Checked.Paired {α β : Type} (R : α → β → Prop) (x : Checked α) (y : Checked β) : Prop :=
  (∃ a b, x = .ok a ∧ y = .ok b ∧ R a b) ∨ ∃ fault, x = .error fault ∧ y = .error fault

theorem exists_of_isOk {ε α : Type} {c : Except ε α} (h : c.isOk = true) : ∃ a, c = .ok a := by
  cases c with
  | ok a => exact ⟨a, rfl⟩
  | error e => cases h

theorem eq_ok_of_toOption {ε α : Type} {c : Except ε α} {a : α} (h : c.toOption = some a) :
    c = .ok a := by
  cases c with
  | ok b =>
    cases h
    rfl
  | error e => cases h

def wordLimit : Nat := 0x1_0000_0000_0000_0000

def word (n : Nat) : Checked Nat := if n < wordLimit then .ok n else .error .overflow

theorem word_eq_ok_iff {n m : Nat} : word n = .ok m ↔ n < wordLimit ∧ m = n := by
  unfold word
  split
  · next h => simp [h, eq_comm]
  · next h => simp [h]

def signedWord (i : Int) : Checked Int :=
  if -0x8000_0000 ≤ i ∧ i < 0x8000_0000 then .ok i else .error .overflow

def addressLimit : Nat := 0x7fff_ffff_ffff_ffff

def setAside (n bytes : Nat) : Checked Unit :=
  if bytes * n ≤ addressLimit then .ok () else .error .overflow

end VectorDisplay
