import VectorDisplay.Error
/-!
Hand-offs of finished frames from publishers to one subscriber: a queue of at most `depth` frames
in between, and the frame that the subscriber took last. A publisher waits while the queue is full,
and the subscriber waits while it is empty; with a depth of zero a frame is handed over directly.
-/

set_option autoImplicit false

namespace VectorDisplay

structure Handoff (φ : Type) where
  depth : Nat
  pending : List φ := []
  current : Option φ := none
  publishers : Nat := 1
  subscribed : Bool := true

namespace Handoff

variable {φ : Type}

/-- The outcome of an operation that may have to wait. -/
inductive Outcome (α : Type) where
  | done (result : α)
  | failed (error : Error)
  | waits

def ofDepth (depth : Nat) : Handoff φ := { depth }

def placeBytes : Nat := 16

def reserve (depth : Nat) : Checked (Handoff φ) :=
  (setAside depth placeBytes).map fun _ => ofDepth depth

def noSubscriber : Error := .of (.handoff "subscriber disconnected")

def noPublisher : Error := .of (.handoff "publisher disconnected")

def isFull (h : Handoff φ) : Bool := h.depth ≤ h.pending.length

def publish (h : Handoff φ) (frame : φ) : Outcome (Handoff φ) :=
  if !h.subscribed then .failed noSubscriber
  else if h.isFull then .waits
  else .done { h with pending := h.pending ++ [frame] }

/-- Publishes without waiting; a full queue gives the frame back. -/
def tryPublish (h : Handoff φ) (frame : φ) : Except Error (Option φ × Handoff φ) :=
  match h.publish frame with
  | .done h => .ok (none, h)
  | .waits => .ok (some frame, h)
  | .failed error => .error error

def pass (h : Handoff φ) (frame : φ) : Handoff φ := { h with current := some frame }

def take (h : Handoff φ) : Outcome (φ × Handoff φ) :=
  match h.pending with
  | frame :: pending => .done (frame, { h with pending, current := some frame })
  | [] => if h.publishers = 0 then .failed noPublisher else .waits

/-- Takes the oldest pending frame, or nothing where it would have to wait. -/
def tryTake (h : Handoff φ) : Except Error (Option φ × Handoff φ) :=
  match h.take with
  | .done (frame, h) => .ok (some frame, h)
  | .waits => .ok (none, h)
  | .failed error => .error error

/-- Takes all that is pending and says how much that was. -/
def refresh (h : Handoff φ) : Nat × Handoff φ :=
  (h.pending.length,
    { h with pending := [], current := h.pending.getLast?.or h.current })

def addPublisher (h : Handoff φ) : Handoff φ := { h with publishers := h.publishers + 1 }

def dropPublisher (h : Handoff φ) : Handoff φ := { h with publishers := h.publishers - 1 }

def dropSubscriber (h : Handoff φ) : Handoff φ := { h with subscribed := false }

end Handoff

end VectorDisplay
