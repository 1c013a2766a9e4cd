import VectorDisplay.Folder
import VectorDisplay.Frame
import VectorDisplay.Handoff
import VectorDisplay.Processor
import VectorDisplay.Report.Json
/-!
Sinks take finished frames: into a file of records, into a file of report lines, to a subscriber, or
wherever else a type of sinks takes them. A list of sinks takes every frame as one: each sink is
offered it, also after another has failed, and the failure of the first in the list counts.
-/

set_option autoImplicit false

namespace VectorDisplay

structure FileSink where
  path : String
  size : Size := {}
  frames : Nat := 0
  bytes : Nat := 0
  writer : Option Writer := none

structure ReportSink where
  path : String
  size : Size := {}
  frames : Nat := 0
  writer : Option Writer := none

structure HandoffSink where
  channel : Handoff Frame
  size : Size := {}
  attended : Bool := false
  taken : List Frame := []

inductive Sink where
  | file (sink : FileSink)
  | report (sink : ReportSink)
  | handoff (sink : HandoffSink)

def notStarted (operation : String) : Error :=
  .of (.state "uninitialized" operation "stream used before initialize()")

abbrev SinkReply (σ : Type) := Reply (σ × Folder) Unit

/-- Sinks of some type, open between start and stop. -/
class Receives (σ : Type) where
  start : σ → Folder → SinkReply σ
  send : σ → Frame → Folder → Checked (SinkReply σ)
  stop : σ → Folder → SinkReply σ
  /-- Someone may still read the frame that the sink was sent last. -/
  holdsFrames : σ → Bool

namespace FileSink

def start (s : FileSink) (folder : Folder) : SinkReply FileSink :=
  match s.writer with
  | some _ => ⟨.ok (), (s, folder), []⟩
  | none =>
    match folder.create s.path with
    | .error error =>
      ⟨.error (.of (.io "file_create" s.path error.message)), (s, folder), []⟩
    | .ok (path, folder) =>
      ⟨.ok (), ({ s with writer := some { path } }, folder),
        [.info ("initialized file stream to '" ++ s.path ++ "'")]⟩

def send (s : FileSink) (frame : Frame) (folder : Folder) : SinkReply FileSink :=
  match s.writer with
  | none => ⟨.error (notStarted "file_write"), (s, folder), []⟩
  | some writer =>
    let bytes := frame.bytes
    let (writer, folder) := writer.write bytes folder
    ⟨.ok (), ({ s with
      frames := s.frames + 1
      bytes := s.bytes + bytes.size
      writer := some writer }, folder), []⟩

def stop (s : FileSink) (folder : Folder) : SinkReply FileSink :=
  let folder :=
    match s.writer with
    | none => folder
    | some writer => (writer.flush folder).2
  ⟨.ok (), ({ s with writer := none }, folder),
    [.info ("file stream '" ++ s.path ++ "' saved " ++ toString s.frames ++ " frames (" ++
      toString s.bytes ++ " bytes)")]⟩

end FileSink

namespace ReportSink

def start (s : ReportSink) (folder : Folder) : SinkReply ReportSink :=
  match s.writer with
  | some _ => ⟨.ok (), (s, folder), []⟩
  | none =>
    match folder.create s.path with
    | .error error =>
      ⟨.error (.of (.io "report_create" s.path error.message)), (s, folder), []⟩
    | .ok (path, folder) => ⟨.ok (), ({ s with writer := some { path } }, folder), []⟩

def line (s : ReportSink) (frame : Frame) : String :=
  frame.report.jsonLine { frame := s.frames, time := frame.time, lit := frame.lit }

def send (s : ReportSink) (frame : Frame) (folder : Folder) : SinkReply ReportSink :=
  match s.writer with
  | none => ⟨.error (notStarted "report_write"), (s, folder), []⟩
  | some writer =>
    let (writer, folder) := writer.write (s.line frame).toUTF8 folder
    ⟨.ok (), ({ s with frames := s.frames + 1, writer := some writer }, folder), []⟩

def stop (s : ReportSink) (folder : Folder) : SinkReply ReportSink :=
  let folder :=
    match s.writer with
    | none => folder
    | some writer => (writer.flush folder).2
  ⟨.ok (), ({ s with writer := none }, folder), []⟩

end ReportSink

namespace HandoffSink

/-- Publishes a frame. With a subscriber who does not attend, a full queue is waited for in vain. -/
def send (s : HandoffSink) (frame : Frame) : Checked (Except Error Unit × HandoffSink) :=
  if s.attended && s.channel.subscribed then
    .ok (.ok (), { s with channel := s.channel.pass frame, taken := s.taken ++ [frame] })
  else
    match s.channel.publish frame with
    | .done channel => .ok (.ok (), { s with channel })
    | .failed error => .ok (.error error, s)
    | .waits => .error .stalled

end HandoffSink

namespace Sink

def lift {σ : Type} (f : σ → Sink) (r : SinkReply σ) : SinkReply Sink :=
  ⟨r.result, (f r.state.1, r.state.2), r.log⟩

def start (s : Sink) (folder : Folder) : SinkReply Sink :=
  match s with
  | file s => lift file (s.start folder)
  | report s => lift report (s.start folder)
  | handoff s => ⟨.ok (), (handoff s, folder), []⟩

def send (s : Sink) (frame : Frame) (folder : Folder) : Checked (SinkReply Sink) :=
  match s with
  | file s => .ok (lift file (s.send frame folder))
  | report s => .ok (lift report (s.send frame folder))
  | handoff s =>
    match s.send frame with
    | .error fault => .error fault
    | .ok (result, s) => .ok ⟨result, (handoff s, folder), []⟩

def stop (s : Sink) (folder : Folder) : SinkReply Sink :=
  match s with
  | file s => lift file (s.stop folder)
  | report s => lift report (s.stop folder)
  | handoff s => ⟨.ok (), (handoff s, folder), []⟩

/-- A subscriber keeps the frame that it took until it takes another. -/
def holdsFrames : Sink → Bool
  | handoff _ => true
  | _ => false

instance : Receives Sink := ⟨start, send, stop, holdsFrames⟩

@[simp] theorem receives_start : (Receives.start : Sink → Folder → SinkReply Sink) = start := rfl

@[simp] theorem receives_send :
    (Receives.send : Sink → Frame → Folder → Checked (SinkReply Sink)) = send := rfl

@[simp] theorem receives_stop : (Receives.stop : Sink → Folder → SinkReply Sink) = stop := rfl

@[simp] theorem receives_holdsFrames : (Receives.holdsFrames : Sink → Bool) = holdsFrames := rfl

section Many

variable {σ : Type}

/-- Applies an operation to each sink in turn, up to the first that fails. -/
def each (op : σ → Folder → SinkReply σ) : List σ → Folder → SinkReply (List σ)
  | [], folder => ⟨.ok (), ([], folder), []⟩
  | s :: rest, folder =>
    let first := op s folder
    match first.result with
    | .error error => ⟨.error error, (first.state.1 :: rest, first.state.2), first.log⟩
    | .ok () =>
      let others := each op rest first.state.2
      ⟨others.result, (first.state.1 :: others.state.1, others.state.2), first.log ++ others.log⟩

variable [Receives σ]

def startAll : List σ → Folder → SinkReply (List σ) := each Receives.start

def stopAll : List σ → Folder → SinkReply (List σ) := each Receives.stop

def sendAll (frame : Frame) : List σ → Folder → Checked (SinkReply (List σ))
  | [], folder => .ok ⟨.ok (), ([], folder), []⟩
  | s :: rest, folder =>
    match Receives.send s frame folder with
    | .error fault => .error fault
    | .ok first =>
      match sendAll frame rest first.state.2 with
      | .error fault => .error fault
      | .ok others =>
        .ok ⟨first.result.bind fun _ => others.result,
          (first.state.1 :: others.state.1, others.state.2), first.log ++ others.log⟩

end Many

end Sink

end VectorDisplay
