import VectorDisplay.Frame
import VectorDisplay.Settings
set_option autoImplicit false

namespace VectorDisplay

structure Logged (α : Type) where
  result : α
  log : Log := []

/-- The frame that a picture gives under some settings. -/
def Settings.render [Hypot] [Memory] (s : Settings) (p : Picture) :
    Checked (Logged (Except Error Frame)) :=
  match s.fault? with
  | some reason => .ok ⟨.error (.of (.config "config" "" reason)), []⟩
  | none =>
    match Buffer.ofCapacity s.capacity with
    | .error error => .ok ⟨.error error, []⟩
    | .ok buffer =>
      match s.generator.draw p buffer with
      | .error fault => .error fault
      | .ok drawn =>
        .ok ⟨do
          let report ← drawn.result
          let storage ← drawn.buffer.finish
          return { storage, width := s.width, height := s.height, time := p.time, report },
          drawn.log⟩

end VectorDisplay
