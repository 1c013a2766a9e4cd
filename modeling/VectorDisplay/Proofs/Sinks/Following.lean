import VectorDisplay.Proofs.Frame
import VectorDisplay.Proofs.Report
import VectorDisplay.Proofs.Sinks
import VectorDisplay.Proofs.Sinks.Courses
set_option autoImplicit false

namespace VectorDisplay

namespace Folder

/-- The file that a sink goes on with, if it is open, or else makes, and what that file has by then. -/
inductive Begins (begun : Folder) (path : String) : Option Writer → Path → ByteArray → Prop where
  | closed {p : Path} {f : Folder} (hcreate : begun.create path = .ok (p, f)) :
      Begins begun path none p .empty
  | opened {w : Writer} {before : ByteArray} (hholds : w.Holds begun before) :
      Begins begun path (some w) w.path before

def Gains (begun after : Folder) (path : String) : Option Writer → ByteArray → Prop
  | none, text => after.read path = .ok text
  | some w, text => ∃ before, w.Holds begun before ∧ after.file? w.path = some (before ++ text)

theorem Begins.gains {begun after : Folder} {path : String} {writer : Option Writer} {p : Path}
    {before text : ByteArray} {changed : List Path} (h : Begins begun path writer p before)
    (hextends : begun.Extends after changed) (hfile : after.file? p = some (before ++ text)) :
    begun.Gains after path writer text := by
  cases h with
  | closed hcreate =>
    rw [ByteArray.empty_append] at hfile
    exact hextends.read_created hcreate hfile
  | opened hholds => exact ⟨_, hholds, hfile⟩

end Folder

open Folder

namespace ReportSink

structure Noted (s : ReportSink) (p : Path) (f : Folder) (frames : Nat) (content : ByteArray) :
    Prop where
  frames_eq : s.frames = frames
  exists_writer : ∃ w, s.writer = some w ∧ w.path = p ∧ w.Holds f content

variable {s : ReportSink} {p : Path} {f : Folder} {frames : Nat} {content : ByteArray}

theorem noted_start {g : Folder} (hclosed : s.writer = none) (hok : f.create s.path = .ok (p, g)) :
    ∃ s' log, s.start f = ⟨.ok (), (s', g), log⟩ ∧ s'.Noted p g s.frames .empty ∧
      f.Extends g [p] := by
  obtain ⟨_, _, -, -, -, -, rfl⟩ := Folder.create_eq_ok hok
  refine ⟨{ s with writer := some { path := p } }, _, by simp only [start, hclosed, hok]; rfl,
    ⟨rfl, { path := p }, rfl, rfl, .empty, f.file?_put_self p .empty, rfl, rfl⟩, ?_⟩
  exact (Folder.Extends.refl f _).put (List.mem_singleton_self p) _

theorem Noted.send (h : s.Noted p f frames content) (frame : Frame) :
    ∃ s' g, s.send frame f = ⟨.ok (), (s', g), []⟩ ∧
      s'.Noted p g (frames + 1) (content ++ (s.line frame).toUTF8) ∧ f.Extends g [p] := by
  obtain ⟨w, hwriter, rfl, hholds⟩ := h.exists_writer
  refine ⟨{ s with
      frames := s.frames + 1
      writer := some (w.write (s.line frame).toUTF8 f).1 }, (w.write (s.line frame).toUTF8 f).2,
    by simp only [ReportSink.send, hwriter], ⟨?_, _, rfl, w.path_write _ f, hholds.write _⟩, ?_⟩
  · exact congrArg (· + 1) h.frames_eq
  · exact w.extends_write _ (Folder.Extends.refl f _) (List.mem_singleton_self _)

theorem Noted.stop (h : s.Noted p f frames content) :
    ∃ s' g log, s.stop f = ⟨.ok (), (s', g), log⟩ ∧ g.file? p = some content ∧
      f.Extends g [p] := by
  obtain ⟨w, hwriter, rfl, hholds⟩ := h.exists_writer
  refine ⟨{ s with writer := none }, (w.flush f).2, _, by simp only [ReportSink.stop, hwriter]; rfl,
    hholds.file?_flush, ?_⟩
  exact w.extends_flush (Folder.Extends.refl f _) (List.mem_singleton_self _)

theorem Noted.of_extends (h : s.Noted p f frames content) {g : Folder} {changed : List Path}
    (hfg : f.Extends g changed) (hp : p ∉ changed) : s.Noted p g frames content := by
  obtain ⟨w, hwriter, rfl, hholds⟩ := h.exists_writer
  exact ⟨h.frames_eq, w, hwriter, rfl, hholds.of_extends hfg hp⟩

end ReportSink

namespace HandoffSink

def after (s : HandoffSink) (frames : List Frame) : HandoffSink :=
  if s.attended then
    { s with channel := frames.foldl Handoff.pass s.channel, taken := s.taken ++ frames }
  else { s with channel := { s.channel with pending := s.channel.pending ++ frames } }

structure Admits (s : HandoffSink) (n : Nat) : Prop where
  subscribed : s.channel.subscribed = true
  room : s.attended = true ∨ s.channel.pending.length + n ≤ s.channel.depth

theorem after_nil (s : HandoffSink) : s.after [] = s := by
  unfold after
  split <;> simp

theorem subscribed_foldl_pass (h : Handoff Frame) (frames : List Frame) :
    (frames.foldl Handoff.pass h).subscribed = h.subscribed := by
  induction frames generalizing h with
  | nil => rfl
  | cons frame rest ih => exact ih (h.pass frame)

theorem Admits.send_after {s : HandoffSink} {n : Nat} (h : s.Admits n) {frames : List Frame}
    (hroom : frames.length < n) (frame : Frame) :
    (s.after frames).send frame = .ok (.ok (), s.after (frames ++ [frame])) := by
  have hsubscribed := h.subscribed
  unfold after
  by_cases hattended : s.attended = true
  · simp [hattended, send, subscribed_foldl_pass, hsubscribed]
  · have hdepth : ¬ s.channel.depth ≤ s.channel.pending.length + frames.length := by
      have := h.room.resolve_left hattended
      omega
    simp [hattended, send, Handoff.publish, Handoff.isFull, hsubscribed, hdepth]

end HandoffSink

namespace Course

variable {n : Nat} {begun : Folder} {p : Path} {before : ByteArray}

def file (n : Nat) (p : Path) (before : ByteArray) : Course Sink n where
  own := [p]
  held := false
  took frames t f := ∃ s, t = .file s ∧ s.Saved p f (before ++ Frame.stream frames)
  left frames _ f := f.file? p = some (before ++ Frame.stream frames)
  holdsFrames_eq := by
    rintro _ _ _ ⟨s, rfl, -⟩
    rfl
  send := by
    rintro frames _ f ⟨s, rfl, hsaved⟩ - frame
    obtain ⟨s', g, hsend, hsaved', hfg⟩ := hsaved.send frame
    rw [ByteArray.append_assoc, ← Frame.stream_concat] at hsaved'
    exact ⟨.file s', g, [], by simp [Sink.send, hsend, Sink.lift], ⟨s', rfl, hsaved'⟩, hfg⟩
  stop := by
    rintro frames _ f ⟨s, rfl, hsaved⟩
    obtain ⟨s', g, log, hstop, hfile, hfg⟩ := hsaved.stop
    exact ⟨.file s', g, log, by simp [Sink.stop, hstop, Sink.lift], hfile, hfg⟩
  took_of_extends := by
    rintro frames _ f g changed ⟨s, rfl, hsaved⟩ hfg hdisjoint
    exact ⟨s, rfl, hsaved.of_extends hfg (hdisjoint (List.mem_singleton_self p))⟩
  left_of_extends hfile hfg hdisjoint :=
    (hfg.file?_eq (hdisjoint (List.mem_singleton_self p))).trans hfile

def report (n : Nat) (p : Path) (before : ByteArray) (first : Nat) : Course Sink n where
  own := [p]
  held := false
  took frames t f := ∃ s, t = .report s ∧
    s.Noted p f (first + frames.length) (before ++ Report.fileOf (Report.lines first frames))
  left frames _ f := f.file? p = some (before ++ Report.fileOf (Report.lines first frames))
  holdsFrames_eq := by
    rintro _ _ _ ⟨s, rfl, -⟩
    rfl
  send := by
    rintro frames _ f ⟨s, rfl, hnoted⟩ - frame
    obtain ⟨s', g, hsend, hnoted', hfg⟩ := hnoted.send frame
    refine ⟨.report s', g, [], by simp [Sink.send, hsend, Sink.lift], ⟨s', rfl, ?_⟩, hfg⟩
    have hcount : first + (frames ++ [frame]).length = first + frames.length + 1 := by
      rw [List.length_append]
      rfl
    rw [hcount, Report.lines_concat, Report.fileOf_concat, ← ByteArray.append_assoc]
    rwa [ReportSink.line, hnoted.frames_eq] at hnoted'
  stop := by
    rintro frames _ f ⟨s, rfl, hnoted⟩
    obtain ⟨s', g, log, hstop, hfile, hfg⟩ := hnoted.stop
    exact ⟨.report s', g, log, by simp [Sink.stop, hstop, Sink.lift], hfile, hfg⟩
  took_of_extends := by
    rintro frames _ f g changed ⟨s, rfl, hnoted⟩ hfg hdisjoint
    exact ⟨s, rfl, hnoted.of_extends hfg (hdisjoint (List.mem_singleton_self p))⟩
  left_of_extends hfile hfg hdisjoint :=
    (hfg.file?_eq (hdisjoint (List.mem_singleton_self p))).trans hfile

def handoff (n : Nat) (s : HandoffSink) : Course Sink n where
  own := []
  held := true
  took frames t _ := s.Admits n ∧ t = .handoff (s.after frames)
  left frames t _ := t = .handoff (s.after frames)
  holdsFrames_eq := by
    rintro _ _ _ ⟨-, rfl⟩
    rfl
  send := by
    rintro frames _ f ⟨hadmits, rfl⟩ hroom frame
    refine ⟨.handoff (s.after (frames ++ [frame])), f, [], ?_, ⟨hadmits, rfl⟩, .refl f []⟩
    simp [Sink.send, hadmits.send_after hroom frame]
  stop := by
    rintro frames _ f ⟨-, rfl⟩
    exact ⟨_, f, [], rfl, rfl, .refl f []⟩
  took_of_extends h _ _ := h
  left_of_extends h _ _ := h

theorem starts_file {s : FileSink} (h : begun.Begins s.path s.writer p before) :
    (file n p before).Starts begun (.file s) := by
  intro f changed hbegun hdisjoint
  have hp : p ∉ changed := hdisjoint (List.mem_singleton_self p)
  cases hwriter : s.writer with
  | none =>
    rw [hwriter] at h
    obtain ⟨hcreate⟩ := h
    obtain ⟨s', log, hstart, hsaved, hfg⟩ :=
      FileSink.saved_start hwriter (hbegun.create_eq hcreate)
    refine ⟨.file s', _, log, by simp [Sink.start, hstart, Sink.lift], ⟨s', rfl, ?_⟩, hfg⟩
    simpa [Frame.stream] using hsaved
  | some w =>
    rw [hwriter] at h
    cases h with
    | opened hholds =>
      refine ⟨.file s, f, [], by simp [Sink.start, FileSink.start, hwriter, Sink.lift],
        ⟨s, rfl, w, hwriter, rfl, ?_⟩, .refl f _⟩
      simpa [Frame.stream] using hholds.of_extends hbegun hp

theorem starts_report {s : ReportSink} (h : begun.Begins s.path s.writer p before) :
    (report n p before s.frames).Starts begun (.report s) := by
  intro f changed hbegun hdisjoint
  have hp : p ∉ changed := hdisjoint (List.mem_singleton_self p)
  cases hwriter : s.writer with
  | none =>
    rw [hwriter] at h
    obtain ⟨hcreate⟩ := h
    obtain ⟨s', log, hstart, hnoted, hfg⟩ :=
      ReportSink.noted_start hwriter (hbegun.create_eq hcreate)
    refine ⟨.report s', _, log, by simp [Sink.start, hstart, Sink.lift], ⟨s', rfl, ?_⟩, hfg⟩
    simpa [Report.lines, Report.fileOf] using hnoted
  | some w =>
    rw [hwriter] at h
    cases h with
    | opened hholds =>
      refine ⟨.report s, f, [], by simp [Sink.start, ReportSink.start, hwriter, Sink.lift],
        ⟨s, rfl, rfl, w, hwriter, rfl, ?_⟩, .refl f _⟩
      simpa [Report.lines, Report.fileOf] using hholds.of_extends hbegun hp

theorem starts_handoff {s : HandoffSink} (h : s.Admits n) :
    (handoff n s).Starts begun (.handoff s) := by
  intro f changed _ _
  refine ⟨.handoff s, f, [], rfl, ⟨h, ?_⟩, .refl f []⟩
  exact congrArg Sink.handoff s.after_nil.symm

end Course

/-- Lines that report on frames: one line a frame, in order, numbered on from the first. Each gives
the time of its frame, the account of its drawing, and how many of its records in the stream of all
frames are lit. -/
structure Report.ReportsOn (lines : List String) (first : Nat) (frames : List Frame) : Prop where
  length_eq : lines.length = frames.length
  isLine : ∀ line ∈ lines, IsLine line
  line_eq {i : Nat} {frame : Frame} : frames[i]? = some frame →
    ∃ records, Sample.unpack (Frame.slice frames i) = .ok records ∧
      lines[i]? = some (Json.object (frame.report.fields (some {
        frame := first + i, time := frame.time, lit := records.countP Sample.isLit })))

theorem Report.reportsOn_lines (first : Nat) (frames : List Frame) :
    ReportsOn (lines first frames) first frames where
  length_eq := List.length_mapIdx
  isLine := isLine_of_mem_lines
  line_eq := by
    intro i frame hframe
    refine ⟨frame.samples, Frame.unpack_slice hframe, ?_⟩
    rw [lines, List.getElem?_mapIdx, hframe]
    rfl

/-- A sink of a session, and what is known of it: a file with its place and what the sink has written
to it before, a hand-off, or any other sink with its course. -/
inductive Recipient (σ : Type) [Receives σ] (n : Nat) where
  | file (sink : FileSink) (place : Path) (before : ByteArray)
  | report (sink : ReportSink) (place : Path) (before : ByteArray)
  | handoff (sink : HandoffSink)
  | other (sink : σ) (course : Course σ n)

namespace Recipient

variable {σ : Type} [Receives σ] {n : Nat}

def sink (e : Sink → σ) : Recipient σ n → σ
  | file s _ _ => e (.file s)
  | report s _ _ => e (.report s)
  | handoff s => e (.handoff s)
  | other s _ => s

def files : Recipient σ n → List Path
  | file _ place _ => [place]
  | report _ place _ => [place]
  | handoff _ => []
  | other _ course => course.own

def holds : Recipient σ n → Bool
  | file .. => false
  | report .. => false
  | handoff _ => true
  | other _ course => course.held

/-- The sink takes up to `n` frames without a failure: its file is open or can be made, a hand-off
admits the frames, another sink is on its course. -/
def Ready (begun : Folder) : Recipient σ n → Prop
  | file s place before => begun.Begins s.path s.writer place before
  | report s place before => begun.Begins s.path s.writer place before
  | handoff s => s.Admits n
  | other s course => course.Starts begun s

/-- What is left of the sink once it was sent some frames and stopped: the records of the frames in
its file, lines that report on them, the frames themselves, or the end of its course. -/
def Ended (e : Sink → σ) (begun after : Folder) (frames : List Frame) (t : σ) : Recipient σ n → Prop
  | file s _ _ => begun.Gains after s.path s.writer (Frame.stream frames)
  | report s _ _ => ∃ lines, Report.ReportsOn lines s.frames frames ∧
      begun.Gains after s.path s.writer (Report.fileOf lines)
  | handoff s => t = e (.handoff (s.after frames))
  | other _ course => course.left frames t after

variable {e : Sink → σ} (he : Respects e)

def course : Recipient σ n → Course σ n
  | file _ place before => (Course.file n place before).map he
  | report s place before => (Course.report n place before s.frames).map he
  | handoff s => (Course.handoff n s).map he
  | other _ course => course

@[simp] theorem own_course (r : Recipient σ n) : (r.course he).own = r.files := by
  cases r <;> rfl

@[simp] theorem held_course (r : Recipient σ n) : (r.course he).held = r.holds := by
  cases r <;> rfl

variable {begun : Folder} {r : Recipient σ n}

theorem starts_course (h : r.Ready begun) : (r.course he).Starts begun (r.sink e) := by
  cases r with
  | file s place before => exact Course.starts_map he (Course.starts_file h)
  | report s place before => exact Course.starts_map he (Course.starts_report h)
  | handoff s => exact Course.starts_map he (Course.starts_handoff h)
  | other s course => exact h

theorem ended_of_left (h : r.Ready begun) {after : Folder} {changed : List Path}
    (hafter : begun.Extends after changed) {frames : List Frame} {t : σ}
    (hleft : (r.course he).left frames t after) : r.Ended e begun after frames t := by
  cases r with
  | file s place before =>
    obtain ⟨t, rfl, hleft⟩ := hleft
    exact Folder.Begins.gains h hafter hleft
  | report s place before =>
    obtain ⟨t, rfl, hleft⟩ := hleft
    exact ⟨_, Report.reportsOn_lines _ _, Folder.Begins.gains h hafter hleft⟩
  | handoff s =>
    obtain ⟨t, rfl, hleft⟩ := hleft
    exact congrArg e hleft
  | other s course => exact hleft

end Recipient

end VectorDisplay
