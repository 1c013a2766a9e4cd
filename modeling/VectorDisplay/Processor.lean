import VectorDisplay.Frame
import VectorDisplay.Sample.Pool
import VectorDisplay.Settings
set_option autoImplicit false

namespace VectorDisplay

structure Size where
  width : UInt32 := 0
  height : UInt32 := 0
  deriving DecidableEq, Repr

def Size.area (s : Size) : Nat := s.width.toNat * s.height.toNat

def Size.text (s : Size) : String := toString s.width ++ "x" ++ toString s.height

/-- What an operation on something with a state gives: its result, the state after it, also after a
failure, and what it logged. -/
structure Reply (σ α : Type) where
  result : Except Error α
  state : σ
  log : Log := []

class Draws (π : Type) where
  start : π → Size → Reply π Size
  /-- The frame that a picture gives; none where it is lost. -/
  process : π → Picture → Checked (Reply π (Option Frame))
  recycle : π → Storage → π

structure Processor where
  generator : Generator
  pool : Pool
  output : Size
  frames : Nat := 0

namespace Processor

def standardLimit : Nat := 4

def ofSettings [Hypot] (s : Settings) : Processor where
  generator := s.generator
  pool := .ofLimit standardLimit
  output := ⟨s.width, s.height⟩

def recycle (p : Processor) (storage : Storage) : Processor :=
  { p with pool := p.pool.recycle storage }

def render [Memory] (p : Processor) (picture : Picture) : Checked (Reply Processor Frame) :=
  match p.pool.acquire p.output.area with
  | (.error error, pool) => .ok ⟨.error error, { p with pool }, []⟩
  | (.ok buffer, pool) =>
    match p.generator.draw picture buffer with
    | .error fault => .error fault
    | .ok drawn =>
      let p := { p with pool }
      let frame : Except Error Frame := do
        let report ← drawn.result
        let storage ← drawn.buffer.finish
        return {
          storage := storage
          width := p.output.width
          height := p.output.height
          time := picture.time
          report := report }
      match frame with
      | .ok frame => .ok ⟨.ok frame, { p with frames := p.frames + 1 }, drawn.log⟩
      | .error error => .ok ⟨.error error, p.recycle drawn.buffer.toStorage, drawn.log⟩

/-- Like `render`, but a frame that is lost to a full memory or a short drawing is no failure. -/
def process [Memory] (p : Processor) (picture : Picture) :
    Checked (Reply Processor (Option Frame)) :=
  match p.render picture with
  | .error fault => .error fault
  | .ok reply =>
    match reply.result with
    | .ok frame => .ok ⟨.ok (some frame), reply.state, reply.log⟩
    | .error error =>
      if error.losesFrame then
        .ok ⟨.ok none, reply.state, reply.log ++
          [.error ("dropping frame " ++ toString reply.state.frames ++ ": " ++ error.message)]⟩
      else .ok ⟨.error error, reply.state, reply.log⟩

def start (p : Processor) (input : Size) : Reply Processor Size :=
  if input.area = 0 then
    ⟨.error (.of (.validation "input_size" "must be non-zero" input.text)), p, []⟩
  else
    ⟨.ok p.output, p, [.info (p.generator.mode.name ++ " generator: " ++ input.text ++
      " source -> " ++ toString p.output.area ++ " samples per frame")]⟩

instance [Memory] : Draws Processor := ⟨start, process, recycle⟩

@[simp] theorem draws_start [Memory] :
    (Draws.start : Processor → Size → Reply Processor Size) = start := rfl

@[simp] theorem draws_process [Memory] :
    (Draws.process : Processor → Picture → Checked (Reply Processor (Option Frame))) = process := rfl

@[simp] theorem draws_recycle [Memory] :
    (Draws.recycle : Processor → Storage → Processor) = recycle := rfl

end Processor

end VectorDisplay
