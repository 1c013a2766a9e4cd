import VectorDisplay.Sink
import VectorDisplay.Source
/-!
A session pulls pictures from a source one at a time, has each drawn, and sends the frames to every
sink. It ends when the source does, when enough frames were sent, or at the first failure; a session
that fails stops where it is and closes nothing.
-/

set_option autoImplicit false

namespace VectorDisplay

structure Summary where
  frames : Nat := 0
  dropped : Nat := 0
  cut : Nat := 0
  blank : Nat := 0
  samples : Nat := 0
  deriving DecidableEq, Repr

def Summary.add (s : Summary) (f : Frame) : Summary :=
  { s with
    frames := s.frames + 1
    samples := s.samples + f.samples.size
    cut := s.cut + if f.report.isCut then 1 else 0
    blank := s.blank + if f.report.isBlank then 1 else 0 }

def Summary.text (s : Summary) : String :=
  toString s.frames ++ " frames, " ++ toString s.dropped ++ " dropped, " ++ toString s.cut ++
    " truncated, " ++ toString s.blank ++ " blank"

structure Studio (π σ : Type) where
  processor : π
  sinks : List σ
  folder : Folder
  summary : Summary := {}
  log : Log := []

/-- A session with a processor, a source and sinks of any types. -/
structure Session (π ς σ : Type) where
  processor : π
  sinks : List σ
  source : ς
  maxFrames : Option Nat := none

structure Ending (π ς σ : Type) where
  result : Except Failure Unit
  source : ς
  studio : Studio π σ

variable {π ς σ : Type} [Draws π] [Supplies ς] [Receives σ]

namespace Studio

def note (s : Studio π σ) (records : Log) : Studio π σ := { s with log := s.log ++ records }

/-- Sends a frame to the sinks and then takes its storage back, unless someone may still read it. -/
def send (s : Studio π σ) (frame : Frame) : Except Failure Unit × Studio π σ :=
  let s := { s with summary := s.summary.add frame }
  match Sink.sendAll frame s.sinks s.folder with
  | .error fault => (.error (.fault fault), s)
  | .ok reply =>
    let s := { s with sinks := reply.state.1, folder := reply.state.2 }.note reply.log
    match reply.result with
    | .error error => (.error (.error error), s)
    | .ok () =>
      if s.sinks.any Receives.holdsFrames then (.ok (), s)
      else (.ok (), { s with processor := Draws.recycle s.processor frame.storage })

def draw (s : Studio π σ) (picture : Picture) : Except Failure Unit × Studio π σ :=
  match Draws.process s.processor picture with
  | .error fault => (.error (.fault fault), s)
  | .ok reply =>
    let s := { s with processor := reply.state }.note reply.log
    match reply.result with
    | .error error => (.error (.error error), s)
    | .ok none => (.ok (), { s with summary.dropped := s.summary.dropped + 1 })
    | .ok (some frame) => s.send frame

def showAll (maxFrames : Option Nat) (source : ς) (s : Studio π σ) : Ending π ς σ :=
  if maxFrames.any (· ≤ s.summary.frames) then ⟨.ok (), source, s⟩
  else
    match hn : Supplies.next source s.folder with
    | .error fault => ⟨.error (.fault fault), source, s⟩
    | .ok reply =>
      let s := s.note reply.log
      match hr : reply.result with
      | .error error => ⟨.error (.error error), reply.state, s⟩
      | .ok none => ⟨.ok (), reply.state, s⟩
      | .ok (some picture) =>
        have := Supplies.ahead_next hn hr
        match s.draw picture with
        | (.error failure, s) => ⟨.error failure, reply.state, s⟩
        | (.ok (), s) => showAll maxFrames reply.state s
termination_by Supplies.ahead source

def close (s : Studio π σ) : Except Failure Unit × Studio π σ :=
  let reply := Sink.stopAll s.sinks s.folder
  (reply.result.mapError .error,
    { s with sinks := reply.state.1, folder := reply.state.2 }.note reply.log)

end Studio

namespace Session

/-- Starts the source, the processor and the sinks, in this order. -/
def start (session : Session π ς σ) (folder : Folder) : Ending π ς σ :=
  let studio : Studio π σ := ⟨session.processor, session.sinks, folder, {}, []⟩
  match Supplies.start session.source folder with
  | .error fault => ⟨.error (.fault fault), session.source, studio⟩
  | .ok started =>
    let source := started.state
    let studio := studio.note started.log
    match started.result with
    | .error error => ⟨.error (.error error), source, studio⟩
    | .ok () =>
      let met := Draws.start studio.processor (Supplies.size source)
      let studio := { studio with processor := met.state }.note met.log
      match met.result with
      | .error error => ⟨.error (.error error), source, studio⟩
      | .ok output =>
        let opened := Sink.startAll studio.sinks studio.folder
        let studio :=
          { studio with sinks := opened.state.1, folder := opened.state.2 }.note opened.log
        match opened.result with
        | .error error => ⟨.error (.error error), source, studio⟩
        | .ok () =>
          ⟨.ok (), source, studio.note [.info ("vector session started: input " ++
            (Supplies.size source).text ++ ", output " ++ output.text ++ ", " ++
            toString studio.sinks.length ++ " streams")]⟩

def finish (shown : Ending π ς σ) : Ending π ς σ :=
  let (result, studio) := shown.studio.close
  match result with
  | .error failure => ⟨.error failure, shown.source, studio⟩
  | .ok () =>
    let stopped := Supplies.stop shown.source studio.folder
    let studio := studio.note stopped.log
    match stopped.result with
    | .error error => ⟨.error (.error error), stopped.state, studio⟩
    | .ok () =>
      ⟨.ok (), stopped.state, studio.note
        [.info ("vector session finished: " ++ studio.summary.text)]⟩

def run (session : Session π ς σ) (folder : Folder) : Ending π ς σ :=
  let started := session.start folder
  match started.result with
  | .error _ => started
  | .ok () =>
    let shown := started.studio.showAll session.maxFrames started.source
    match shown.result with
    | .error _ => shown
    | .ok () => finish shown

end Session

structure SessionParts where
  processor : Option Processor := none
  sinks : List Sink := []
  source : Option Source := none
  maxFrames : Option Nat := none

namespace SessionParts

def output (p : SessionParts) : Size := (p.processor.map (·.output)).getD {}

def withSink (p : SessionParts) (sink : Sink) : SessionParts :=
    { p with sinks := p.sinks ++ [sink] }

def withFile (p : SessionParts) (path : String) : SessionParts :=
  p.withSink (.file { path, size := p.output })

def withReport (p : SessionParts) (path : String) : SessionParts :=
  p.withSink (.report { path, size := p.output })

def withHandoff (p : SessionParts) (channel : Handoff Frame) (attended : Bool) : SessionParts :=
  p.withSink (.handoff { channel, size := p.output, attended })

def withProcessor (p : SessionParts) (processor : Processor) : SessionParts :=
  { p with processor := some processor }

def withSource (p : SessionParts) (source : Source) : SessionParts :=
    { p with source := some source }

def withSettings [Hypot] (p : SessionParts) (s : Settings) : SessionParts :=
  (p.withProcessor (.ofSettings s)).withFile s.output

def build (p : SessionParts) : Except String (Session Processor Source Sink) :=
  if p.sinks.isEmpty then .error "At least one stream must be configured"
  else match p.processor with
    | none => .error "No processor specified"
    | some processor =>
      match p.source with
      | none => .error "No frame source specified"
      | some source => .ok { processor, sinks := p.sinks, source, maxFrames := p.maxFrames }

end SessionParts

structure Run where
  result : Except Failure Summary
  folder : Folder
  log : Log

/-- Renders image files into the output file of the settings, and reports on each frame into another
file where one is named. -/
def Settings.renderFiles [Hypot] [Memory] [ImageLibrary] (s : Settings) (paths : List String)
    (loops : Nat) (report : Option String) (folder : Folder) : Run :=
  match s.fault? with
  | some reason => ⟨.error (.refused reason), folder, []⟩
  | none =>
    if paths.isEmpty then ⟨.error (.refused "No input images given"), folder, []⟩
    else
      let begun : Log := [.info ("rendering " ++ toString paths.length ++ " inputs in " ++
        s.mode.name ++ " mode to '" ++ s.output ++ "' (" ++
        (Size.mk s.width s.height).text ++ " samples per frame)")]
      let parts : SessionParts :=
        (SessionParts.withSettings {} s).withSource (.images { paths, loops })
      let parts := match report with
        | none => parts
        | some path => parts.withReport path
      match parts.build with
      | .error reason => ⟨.error (.refused reason), folder, begun⟩
      | .ok session =>
        let ending := session.run folder
        ⟨ending.result.map fun _ => ending.studio.summary, ending.studio.folder,
          begun ++ ending.studio.log⟩

end VectorDisplay
