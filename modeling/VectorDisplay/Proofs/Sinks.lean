import VectorDisplay.Proofs.Folder
import VectorDisplay.Sink
set_option autoImplicit false

namespace VectorDisplay

inductive Sink.Use where
  | start
  | send (frame : Frame)
  | stop

namespace FileSink

structure Saved (s : FileSink) (p : Path) (f : Folder) (content : ByteArray) : Prop where
  exists_writer : ∃ w, s.writer = some w ∧ w.path = p ∧ w.Holds f content

variable {s : FileSink} {p : Path} {f : Folder} {content : ByteArray}

theorem saved_start {g : Folder} (hclosed : s.writer = none) (hok : f.create s.path = .ok (p, g)) :
    ∃ s' log, s.start f = ⟨.ok (), (s', g), log⟩ ∧ s'.Saved p g .empty ∧ f.Extends g [p] := by
  obtain ⟨_, _, -, -, -, -, rfl⟩ := Folder.create_eq_ok hok
  refine ⟨{ s with writer := some { path := p } }, _, by simp only [start, hclosed, hok]; rfl, ?_, ?_⟩
  · exact ⟨{ path := p }, rfl, rfl, .empty, f.file?_put_self p .empty, rfl, rfl⟩
  · exact (Folder.Extends.refl f _).put (List.mem_singleton_self p) _

theorem Saved.send (h : s.Saved p f content) (frame : Frame) :
    ∃ s' g, s.send frame f = ⟨.ok (), (s', g), []⟩ ∧ s'.Saved p g (content ++ frame.bytes) ∧
      f.Extends g [p] := by
  obtain ⟨w, hwriter, rfl, hholds⟩ := h.exists_writer
  refine ⟨{ s with
      frames := s.frames + 1
      bytes := s.bytes + frame.bytes.size
      writer := some (w.write frame.bytes f).1 }, (w.write frame.bytes f).2,
    by simp only [FileSink.send, hwriter], ?_, ?_⟩
  · exact ⟨_, rfl, w.path_write _ f, hholds.write _⟩
  · exact w.extends_write _ (Folder.Extends.refl f _) (List.mem_singleton_self _)

theorem Saved.stop (h : s.Saved p f content) :
    ∃ s' g log, s.stop f = ⟨.ok (), (s', g), log⟩ ∧ g.file? p = some content ∧
      f.Extends g [p] := by
  obtain ⟨w, hwriter, rfl, hholds⟩ := h.exists_writer
  refine ⟨{ s with writer := none }, (w.flush f).2, _, by simp only [FileSink.stop, hwriter]; rfl,
    hholds.file?_flush, ?_⟩
  exact w.extends_flush (Folder.Extends.refl f _) (List.mem_singleton_self _)

theorem Saved.of_extends (h : s.Saved p f content) {g : Folder} {changed : List Path}
    (hfg : f.Extends g changed) (hp : p ∉ changed) : s.Saved p g content := by
  obtain ⟨w, hwriter, rfl, hholds⟩ := h.exists_writer
  exact ⟨w, hwriter, rfl, hholds.of_extends hfg hp⟩

end FileSink

namespace Sink

inductive Reporting (others : List Path) : Sink → Prop where
  | report {s : ReportSink} {w : Writer} (hwriter : s.writer = some w) (hp : w.path ∈ others) :
      Reporting others (.report s)

variable {others : List Path} {s : Sink} {rest : List Sink} {f : Folder}

theorem Reporting.not_holdsFrames (h : Reporting others s) : s.holdsFrames = false := by
  cases h
  rfl

theorem Reporting.send (h : Reporting others s) (frame : Frame) (f : Folder) :
    ∃ s' g, s.send frame f = .ok ⟨.ok (), (s', g), []⟩ ∧ Reporting others s' ∧
      f.Extends g others := by
  cases h with
  | @report s w hwriter hp =>
    refine ⟨.report { s with
        frames := s.frames + 1
        writer := some (w.write (s.line frame).toUTF8 f).1 },
      (w.write (s.line frame).toUTF8 f).2, ?_, ?_, ?_⟩
    · simp [Sink.send, ReportSink.send, hwriter, lift]
    · exact .report rfl (by simpa using hp)
    · exact w.extends_write _ (Folder.Extends.refl f _) hp

theorem Reporting.stop (h : Reporting others s) (f : Folder) :
    ∃ s' g log, s.stop f = ⟨.ok (), (s', g), log⟩ ∧ f.Extends g others := by
  cases h with
  | @report s w hwriter hp =>
    refine ⟨.report { s with writer := none }, (w.flush f).2, [], ?_, ?_⟩
    · simp [Sink.stop, ReportSink.stop, hwriter, lift]
    · exact w.extends_flush (Folder.Extends.refl f _) hp

theorem sendAll_reporting (h : ∀ s ∈ rest, Reporting others s) (frame : Frame) (f : Folder) :
    ∃ rest' g, sendAll frame rest f = .ok ⟨.ok (), (rest', g), []⟩ ∧
      (∀ s ∈ rest', Reporting others s) ∧ f.Extends g others := by
  induction rest generalizing f with
  | nil => exact ⟨[], f, rfl, by simp, .refl f others⟩
  | cons s rest ih =>
    obtain ⟨s', g, hsend, hs, hfg⟩ := (h s (by simp)).send frame f
    obtain ⟨rest', g', hrest, hall, hgg⟩ := ih (fun r hr => h r (by simp [hr])) g
    refine ⟨s' :: rest', g', ?_, ?_, hfg.trans hgg⟩
    · simp [sendAll, hsend, hrest, Except.bind]
    · simpa using ⟨hs, hall⟩

theorem stopAll_reporting (h : ∀ s ∈ rest, Reporting others s) (f : Folder) :
    ∃ rest' g log, stopAll rest f = ⟨.ok (), (rest', g), log⟩ ∧ f.Extends g others := by
  induction rest generalizing f with
  | nil => exact ⟨[], f, [], rfl, .refl f others⟩
  | cons s rest ih =>
    obtain ⟨s', g, log, hstop, hfg⟩ := (h s (by simp)).stop f
    obtain ⟨rest', g', log', hrest, hgg⟩ := ih (fun r hr => h r (by simp [hr])) g
    rw [stopAll, receives_stop] at hrest
    exact ⟨s' :: rest', g', log ++ log', by simp [stopAll, each, hstop, hrest], hfg.trans hgg⟩

/-- Sinks of which the first saves content in a file and the others report on it elsewhere. -/
structure Saving (sinks : List Sink) (p : Path) (others : List Path) (f : Folder)
    (content : ByteArray) : Prop where
  not_mem : p ∉ others
  exists_file : ∃ s rest, sinks = .file s :: rest ∧ s.Saved p f content ∧
    ∀ r ∈ rest, Reporting others r

namespace Saving

variable {sinks : List Sink} {p : Path} {content : ByteArray}

theorem not_holdsFrames (h : Saving sinks p others f content) :
    sinks.any holdsFrames = false := by
  obtain ⟨s, rest, rfl, -, hrest⟩ := h.exists_file
  rw [List.any_eq_false]
  intro r hr
  rcases List.mem_cons.1 hr with rfl | hr
  · simp [holdsFrames]
  · simp [(hrest r hr).not_holdsFrames]

theorem send (h : Saving sinks p others f content) (frame : Frame) :
    ∃ sinks' g, sendAll frame sinks f = .ok ⟨.ok (), (sinks', g), []⟩ ∧
      Saving sinks' p others g (content ++ frame.bytes) ∧ f.Extends g (p :: others) := by
  obtain ⟨s, rest, rfl, hs, hrest⟩ := h.exists_file
  obtain ⟨s', g, hsend, hs', hfg⟩ := hs.send frame
  obtain ⟨rest', g', hsendAll, hrest', hgg⟩ := sendAll_reporting hrest frame g
  refine ⟨.file s' :: rest', g', ?_, ⟨h.not_mem, s', rest', rfl, ?_, hrest'⟩, ?_⟩
  · simp [sendAll, Sink.send, hsend, lift, hsendAll, Except.bind]
  · exact hs'.of_extends hgg h.not_mem
  · exact (hfg.mono (by simp)).trans (hgg.mono (by simp))

theorem stop (h : Saving sinks p others f content) :
    ∃ sinks' g log, stopAll sinks f = ⟨.ok (), (sinks', g), log⟩ ∧ g.file? p = some content ∧
      f.Extends g (p :: others) := by
  obtain ⟨s, rest, rfl, hs, hrest⟩ := h.exists_file
  obtain ⟨s', g, log, hstop, hfile, hfg⟩ := hs.stop
  obtain ⟨rest', g', log', hstopAll, hgg⟩ := stopAll_reporting hrest g
  rw [stopAll, receives_stop] at hstopAll
  refine ⟨.file s' :: rest', g', log ++ log', ?_, ?_, ?_⟩
  · simp [stopAll, each, Sink.stop, hstop, lift, hstopAll]
  · rw [hgg.file?_eq h.not_mem, hfile]
  · exact (hfg.mono (by simp)).trans (hgg.mono (by simp))

theorem start_file {s : FileSink} {g : Folder} (hclosed : s.writer = none)
    (hok : f.create s.path = .ok (p, g)) :
    ∃ sinks' log, startAll [.file s] f = ⟨.ok (), (sinks', g), log⟩ ∧
      Saving sinks' p [] g .empty ∧ f.Extends g [p] := by
  obtain ⟨s', log, hstart, hs, hfg⟩ := FileSink.saved_start hclosed hok
  refine ⟨[.file s'], log, ?_, ⟨by simp, s', [], rfl, hs, by simp⟩, hfg⟩
  simp [startAll, each, Sink.start, hstart, lift]

theorem start_report {s : FileSink} {r : ReportSink} {g g' : Folder} {q : Path}
    (hclosed : s.writer = none) (hclosed' : r.writer = none)
    (hok : f.create s.path = .ok (p, g)) (hok' : f.create r.path = .ok (q, g')) (hne : p ≠ q) :
    ∃ sinks' h log, startAll [.file s, .report r] f = ⟨.ok (), (sinks', h), log⟩ ∧
      Saving sinks' p [q] h .empty ∧ f.Extends h [p, q] := by
  obtain ⟨s', log, hstart, hs, hfg⟩ := FileSink.saved_start hclosed hok
  have hcreate := hfg.create_eq hok'
  have hgh : g.Extends (g.put q .empty) [q] := (Folder.Extends.refl g _).put (by simp) _
  refine ⟨[.file s', .report { r with writer := some { path := q } }], g.put q .empty, log, ?_,
    ⟨by simpa using hne, s', _, rfl, hs.of_extends hgh (by simpa using hne), ?_⟩, ?_⟩
  · simp [startAll, each, Sink.start, hstart, lift, ReportSink.start, hclosed', hcreate]
  · simpa using Reporting.report rfl (by simp)
  · exact (hfg.mono (by simp)).trans (hgh.mono (by simp))

end Saving

end Sink

end VectorDisplay
