import Mathlib
import VectorDisplay.Platform
import VectorDisplay.Proofs.Frame
import VectorDisplay.Proofs.Showing
import VectorDisplay.Proofs.Sinks
import VectorDisplay.Proofs.Storage
import VectorDisplay.Session
/-!
Sessions over image files. A studio that has `Sent` some frames has saved their records, whatever
storage it drew them into, and counted them. Main statement: rendering files gives what rendering
their pictures one by one gives, pass after pass.
-/

set_option autoImplicit false

namespace VectorDisplay

def Summary.ofFrames (frames : List Frame) : Summary where
  frames := frames.length
  cut := frames.countP (·.report.isCut)
  blank := frames.countP (·.report.isBlank)
  samples := (frames.map (·.samples.size)).sum

theorem Summary.ofFrames_concat (frames : List Frame) (frame : Frame) :
    ofFrames (frames ++ [frame]) = (ofFrames frames).add frame := by
  simp [ofFrames, add, List.countP_append, List.countP_singleton]

theorem Summary.samples_ofFrames {frames : List Frame} {n : Nat}
    (h : ∀ f ∈ frames, f.samples.size = n) : (ofFrames frames).samples = frames.length * n := by
  have hsizes : frames.map (·.samples.size) = List.replicate frames.length n :=
    List.eq_replicate_iff.2 ⟨by simp, by simpa using h⟩
  simp [ofFrames, hsizes]

theorem Summary.add_eq_of_alike {f g : Frame} (h : f.Alike g) (s : Summary) :
    s.add f = s.add g := by
  simp only [add, h.samples_eq, h.report_eq]

namespace Studio

section Steps

variable {π ς σ : Type} [Draws π] [Supplies ς] [Receives σ] {maxFrames : Option Nat}
  {source source' : ς} {s s' : Studio π σ} {log : Log}

theorem draw_of_none {picture : Picture} {processor : π}
    (hprocess : Draws.process s.processor picture = .ok ⟨.ok none, processor, log⟩) :
    s.draw picture = (.ok (), { s with
      processor := processor
      summary := { s.summary with dropped := s.summary.dropped + 1 }
      log := s.log ++ log }) := by
  rw [draw, hprocess]
  rfl

theorem draw_of_some {picture : Picture} {frame : Frame} {processor : π} {sinks : List σ}
    {g : Folder} {records : Log}
    (hprocess : Draws.process s.processor picture = .ok ⟨.ok (some frame), processor, log⟩)
    (hsend : Sink.sendAll frame s.sinks s.folder = .ok ⟨.ok (), (sinks, g), records⟩) :
    s.draw picture = (.ok (), {
      processor := if sinks.any Receives.holdsFrames then processor
        else Draws.recycle processor frame.storage
      sinks := sinks
      folder := g
      summary := s.summary.add frame
      log := s.log ++ log ++ records }) := by
  rw [draw, hprocess]
  simp only [note, send, hsend]
  by_cases hheld : sinks.any Receives.holdsFrames = true <;> simp [hheld]

omit [Draws π] in
theorem close_of_ok {sinks : List σ} {g : Folder}
    (hstop : Sink.stopAll s.sinks s.folder = ⟨.ok (), (sinks, g), log⟩) :
    ∃ records, s.close = (.ok (), { s with sinks := sinks, folder := g, log := records }) :=
  ⟨_, by
    simp only [close, hstop, Except.mapError]
    rfl⟩

theorem showAll_eq (maxFrames : Option Nat) (source : ς) (s : Studio π σ) :
    s.showAll maxFrames source =
      if maxFrames.any (· ≤ s.summary.frames) then ⟨.ok (), source, s⟩
      else match Supplies.next source s.folder with
        | .error fault => ⟨.error (.fault fault), source, s⟩
        | .ok reply =>
          match reply.result with
          | .error error => ⟨.error (.error error), reply.state, s.note reply.log⟩
          | .ok none => ⟨.ok (), reply.state, s.note reply.log⟩
          | .ok (some picture) =>
            match (s.note reply.log).draw picture with
            | (.error failure, s) => ⟨.error failure, reply.state, s⟩
            | (.ok (), s) => s.showAll maxFrames reply.state := by
  rw [showAll]
  split
  · rfl
  · split
    · next hn => rw [hn]
    · next reply hn =>
      simp only [hn]
      split
      · next hr => simp only [hr]
      · next hr => simp only [hr]
      · next picture hr =>
        rcases hdrawn : (s.note reply.log).draw picture with ⟨_ | _, s'⟩ <;> simp only [hr, hdrawn]

theorem showAll_of_enough (henough : maxFrames.any (· ≤ s.summary.frames) = true) (source : ς) :
    s.showAll maxFrames source = ⟨.ok (), source, s⟩ := by
  rw [showAll_eq, if_pos henough]

theorem showAll_of_none (hmore : maxFrames.any (· ≤ s.summary.frames) = false)
    (hnext : Supplies.next source s.folder = .ok ⟨.ok none, source', log⟩) :
    s.showAll maxFrames source = ⟨.ok (), source', s.note log⟩ := by
  rw [showAll_eq, if_neg (by simp [hmore]), hnext]

theorem showAll_of_some {picture : Picture} (hmore : maxFrames.any (· ≤ s.summary.frames) = false)
    (hnext : Supplies.next source s.folder = .ok ⟨.ok (some picture), source', log⟩)
    (hdraw : (s.note log).draw picture = (.ok (), s')) :
    s.showAll maxFrames source = s'.showAll maxFrames source' := by
  rw [showAll_eq, if_neg (by simp [hmore]), hnext]
  dsimp only
  rw [hdraw]

theorem showAll_of_failed {picture : Picture} {failure : Failure}
    (hmore : maxFrames.any (· ≤ s.summary.frames) = false)
    (hnext : Supplies.next source s.folder = .ok ⟨.ok (some picture), source', log⟩)
    (hdraw : (s.note log).draw picture = (.error failure, s')) :
    s.showAll maxFrames source = ⟨.error failure, source', s'⟩ := by
  rw [showAll_eq, if_neg (by simp [hmore]), hnext]
  dsimp only
  rw [hdraw]

end Steps

/-- A studio that drew frames under some settings and sent them to sinks. -/
structure Sent [Hypot] (st : Studio Processor Sink) (s : Settings) (begun : Folder) (p : Path)
    (others : List Path) (frames : List Frame) : Prop where
  serves : st.processor.Serves s
  saving : Sink.Saving st.sinks p others st.folder (Frame.stream frames)
  extends_folder : begun.Extends st.folder (p :: others)
  summary_eq : st.summary = Summary.ofFrames frames

namespace Sent

variable {st : Studio Processor Sink} {s : Settings} {begun : Folder} {p : Path}
  {others : List Path}
  {frames : List Frame}

theorem note [Hypot] (h : st.Sent s begun p others frames) (log : Log) :
    (st.note log).Sent s begun p others frames :=
  ⟨h.serves, h.saving, h.extends_folder, h.summary_eq⟩

theorem draw [Hypot] [Memory] (h : st.Sent s begun p others frames) {picture : Picture}
    {frame : Frame} {log : Log} (hrender : s.render picture = .ok ⟨.ok frame, log⟩) :
    ∃ st', st.draw picture = (.ok (), st') ∧ st'.Sent s begun p others (frames ++ [frame]) := by
  obtain ⟨drawn, processor, hprocess, halike, hserves⟩ := h.serves.exists_process_eq_ok hrender
  obtain ⟨sinks, folder, hsend, hsaving, hextends⟩ := h.saving.send drawn
  rw [halike.bytes_eq, ← Frame.stream_concat] at hsaving
  have hsummary : st.summary.add drawn = Summary.ofFrames (frames ++ [frame]) := by
    rw [Summary.add_eq_of_alike halike, h.summary_eq, Summary.ofFrames_concat]
  refine ⟨⟨processor.recycle drawn.storage, sinks, folder, st.summary.add drawn,
      st.log ++ log ++ []⟩, ?_, hserves.recycle drawn.storage, hsaving,
    h.extends_folder.trans hextends, hsummary⟩
  simp [Studio.draw, hprocess, Studio.send, Studio.note, hsend, hsaving.not_holdsFrames]

theorem showAll [Hypot] [Memory] [ImageLibrary] {upcoming : List String} {frame : String → Frame}
    (h : st.Sent s begun p others frames) {q : ImageSequence} (hq : q.Showing upcoming)
    (hrender : ∀ path ∈ upcoming, ∃ picture log,
      ImageSequence.decode begun path = .ok (.ok picture) ∧
        s.render picture = .ok ⟨.ok (frame path), log⟩)
    (hother : ∀ path ∈ upcoming, ∀ c ∈ p :: others, begun.resolve path ≠ some c) :
    ∃ source st', st.showAll none (Source.images q) = ⟨.ok (), source, st'⟩ ∧
      st'.Sent s begun p others (frames ++ upcoming.map frame) := by
  induction upcoming generalizing st q frames with
  | nil =>
    obtain ⟨q', hnext⟩ := hq.next_nil st.folder
    have hsource : Supplies.next (Source.images q) st.folder = .ok ⟨.ok none, .images q', []⟩ := by
      simp [Source.next, hnext, Source.lift]
    exact ⟨_, _, showAll_of_none rfl hsource, by simpa using h.note []⟩
  | cons path rest ih =>
    obtain ⟨picture, log, hdecode, hframe⟩ := hrender path (by simp)
    have hnow := ImageSequence.decode_eq_of_extends h.extends_folder hdecode
      (hother path (by simp))
    obtain ⟨q', hnext, hq'⟩ := hq.next_cons hnow
    have hsource : Supplies.next (Source.images q) st.folder =
        .ok ⟨.ok (some picture), .images q', []⟩ := by
      simp [Source.next, hnext, Source.lift]
    obtain ⟨st', hdraw, hsent⟩ := (h.note []).draw hframe
    obtain ⟨source, st'', hshow, hend⟩ := ih hsent hq'
      (fun r hr => hrender r (by simp [hr])) (fun r hr => hother r (by simp [hr]))
    refine ⟨source, st'', ?_, by simpa using hend⟩
    rw [showAll_of_some rfl hsource hdraw, hshow]

theorem close [Hypot] (h : st.Sent s begun p others frames) :
    ∃ st', st.close = (.ok (), st') ∧ st'.summary = Summary.ofFrames frames ∧
      st'.folder.file? p = some (Frame.stream frames) ∧
      begun.Extends st'.folder (p :: others) := by
  obtain ⟨sinks, folder, log, hstop, hfile, hextends⟩ := h.saving.stop
  obtain ⟨records, hclose⟩ := close_of_ok hstop
  exact ⟨_, hclose, h.summary_eq, hfile, h.extends_folder.trans hextends⟩

end Sent

end Studio

namespace Session

section Steps

variable {π ς σ : Type} [Draws π] [Supplies ς] [Receives σ] {session : Session π ς σ}
  {folder : Folder} {source source' : ς}

theorem start_of_ok {g : Folder} {processor : π} {output : Size} {sinks : List σ}
    {sourceLog processorLog sinksLog : Log}
    (hsource : Supplies.start session.source folder = .ok ⟨.ok (), source, sourceLog⟩)
    (hprocessor : Draws.start session.processor (Supplies.size source) =
      ⟨.ok output, processor, processorLog⟩)
    (hsinks : Sink.startAll session.sinks folder = ⟨.ok (), (sinks, g), sinksLog⟩) :
    ∃ log, session.start folder = ⟨.ok (), source, ⟨processor, sinks, g, {}, log⟩⟩ :=
  ⟨_, by
    simp only [Session.start, hsource, Studio.note, hprocessor, hsinks]
    rfl⟩

theorem run_of_ok {started shown stopped : Studio π σ} {source'' : ς} {log : Log}
    (hstart : session.start folder = ⟨.ok (), source, started⟩)
    (hshow : started.showAll session.maxFrames source = ⟨.ok (), source', shown⟩)
    (hclose : shown.close = (.ok (), stopped))
    (hstop : Supplies.stop source' stopped.folder = ⟨.ok (), source'', log⟩) :
    ∃ records, session.run folder = ⟨.ok (), source'', { stopped with log := records }⟩ :=
  ⟨_, by
    simp only [Session.run, hstart, hshow, finish, hclose, hstop]
    rfl⟩

end Steps

variable {session : Session Processor Source Sink} {s : Settings} {folder : Folder} {p : Path}
  {others : List Path}
  {q : ImageSequence} {upcoming : List String}

def Opens (sinks : List Sink) (folder : Folder) (p : Path) (others : List Path) : Prop :=
  ∃ sinks' g log, Sink.startAll sinks folder = ⟨.ok (), (sinks', g), log⟩ ∧
    Sink.Saving sinks' p others g .empty ∧ folder.Extends g (p :: others)

theorem start_images [Hypot] [Memory] [ImageLibrary] (hsource : session.source = .images q)
    (hq : q.Showing upcoming) (hserves : session.processor.Serves s)
    (hopens : Opens session.sinks folder p others) {path : String} {picture : Picture}
    (hhead : q.paths.head? = some path)
    (hdecode : ImageSequence.decode folder path = .ok (.ok picture)) :
    ∃ q' st, session.start folder = ⟨.ok (), .images q', st⟩ ∧ q'.Showing upcoming ∧
      st.Sent s folder p others [] := by
  obtain ⟨sinks, g, log, hstart, hsaving, hextends⟩ := hopens
  have harea : Size.area ⟨picture.width, picture.height⟩ ≠ 0 :=
    Nat.ne_of_gt (Nat.mul_pos picture.width_pos picture.height_pos)
  obtain ⟨records, hmet⟩ : ∃ records, Supplies.start session.source folder =
      .ok ⟨.ok (), .images { q with size := ⟨picture.width, picture.height⟩ }, records⟩ :=
    ⟨_, by
      simp only [hsource, Source.supplies_start, Source.start, ImageSequence.start, hhead, hdecode,
        Source.lift]
      rfl⟩
  obtain ⟨records', hprocessor⟩ : ∃ records',
      Draws.start session.processor ⟨picture.width, picture.height⟩ =
        ⟨.ok session.processor.output, session.processor, records'⟩ :=
    ⟨_, by
      simp only [Processor.draws_start, Processor.start, harea, if_false]
      rfl⟩
  obtain ⟨records, hbegun⟩ := start_of_ok hmet hprocessor hstart
  exact ⟨_, _, hbegun, hq.size _, hserves, hsaving, hextends, rfl⟩

theorem run_images [Hypot] [Memory] [ImageLibrary] {frame : String → Frame}
    (hsource : session.source = .images q)
    (hmax : session.maxFrames = none) (hq : q.Showing upcoming)
    (hserves : session.processor.Serves s) (hopens : Opens session.sinks folder p others)
    (hhead : ∃ path ∈ upcoming, q.paths.head? = some path)
    (hrender : ∀ path ∈ upcoming, ∃ picture log,
      ImageSequence.decode folder path = .ok (.ok picture) ∧
        s.render picture = .ok ⟨.ok (frame path), log⟩)
    (hother : ∀ path ∈ upcoming, ∀ c ∈ p :: others, folder.resolve path ≠ some c) :
    (session.run folder).result = .ok () ∧
      (session.run folder).studio.summary = .ofFrames (upcoming.map frame) ∧
      (session.run folder).studio.folder.file? p = some (Frame.stream (upcoming.map frame)) ∧
      folder.Extends (session.run folder).studio.folder (p :: others) := by
  obtain ⟨path, hpath, hhead⟩ := hhead
  obtain ⟨picture, log, hdecode, -⟩ := hrender path hpath
  obtain ⟨q', st, hstart, hq', hsent⟩ := start_images hsource hq hserves hopens hhead hdecode
  obtain ⟨source, st', hshow, hsent'⟩ := hsent.showAll hq' hrender hother
  obtain ⟨st'', hclose, hsummary, hfile, hextends⟩ := hsent'.close
  obtain ⟨records, hrun⟩ := run_of_ok hstart (hmax ▸ hshow) hclose rfl
  rw [hrun]
  exact ⟨rfl, hsummary, hfile, hextends⟩

end Session

namespace Settings

variable {s : Settings} {paths : List String} {loops : Nat} {folder : Folder}

def session [Hypot] (s : Settings) (paths : List String) (loops : Nat) (report : Option String) :
    Session Processor Source Sink where
  processor := .ofSettings s
  sinks := .file { path := s.output, size := ⟨s.width, s.height⟩ } ::
    report.toList.map fun path => .report { path, size := ⟨s.width, s.height⟩ }
  source := .images { paths, loops }

variable (loops) in
theorem renderFiles_eq [Hypot] [Memory] [ImageLibrary] (hvalid : s.fault? = none)
    (hpaths : paths ≠ []) (report : Option String) :
    ∃ log, s.renderFiles paths loops report folder =
      ⟨((s.session paths loops report).run folder).result.map fun _ =>
          ((s.session paths loops report).run folder).studio.summary,
        ((s.session paths loops report).run folder).studio.folder, log⟩ := by
  have hempty : paths.isEmpty = false := by simpa using hpaths
  unfold renderFiles
  rw [hvalid, hempty]
  cases report with
  | none => exact ⟨_, rfl⟩
  | some path => exact ⟨_, rfl⟩

structure Writable (s : Settings) (folder : Folder) (paths : List String)
    (report : Option String) : Prop where
  output : (folder.create s.output).isOk = true
  report_ok : ∀ r ∈ report, (folder.create r).isOk = true
  report_ne : ∀ r ∈ report, folder.resolve r ≠ folder.resolve s.output
  input_ne_output : ∀ path ∈ paths, folder.resolve path ≠ folder.resolve s.output
  input_ne_report : ∀ path ∈ paths, ∀ r ∈ report, folder.resolve path ≠ folder.resolve r

variable (loops) in
theorem Writable.opens [Hypot] {report : Option String} (h : s.Writable folder paths report) :
    ∃ p others g, folder.create s.output = .ok (p, g) ∧
      Session.Opens (s.session paths loops report).sinks folder p others ∧
      ∀ path ∈ paths, ∀ c ∈ p :: others, folder.resolve path ≠ some c := by
  obtain ⟨⟨p, g⟩, hcreate⟩ := exists_of_isOk h.output
  have hp := Folder.resolve_of_create hcreate
  cases report with
  | none =>
    obtain ⟨sinks, log, hstart, hsaving, hextends⟩ :=
      Sink.Saving.start_file (s := { path := s.output, size := ⟨s.width, s.height⟩ }) rfl hcreate
    refine ⟨p, [], g, hcreate, ⟨sinks, g, log, hstart, hsaving, hextends⟩, ?_⟩
    intro path hpath c hc
    rw [List.mem_singleton.1 hc, ← hp]
    exact h.input_ne_output path hpath
  | some r =>
    obtain ⟨⟨q, g'⟩, hcreate'⟩ := exists_of_isOk (h.report_ok r rfl)
    have hq := Folder.resolve_of_create hcreate'
    have hne : p ≠ q := by
      intro heq
      apply h.report_ne r rfl
      rw [hp, hq, heq]
    obtain ⟨sinks, g'', log, hstart, hsaving, hextends⟩ :=
      Sink.Saving.start_report (s := { path := s.output, size := ⟨s.width, s.height⟩ })
        (r := { path := r, size := ⟨s.width, s.height⟩ }) rfl rfl hcreate hcreate' hne
    refine ⟨p, [q], g, hcreate, ⟨sinks, g'', log, hstart, hsaving, hextends⟩, ?_⟩
    intro path hpath c hc
    rcases List.mem_cons.1 hc with rfl | hc
    · rw [← hp]
      exact h.input_ne_output path hpath
    · rw [List.mem_singleton.1 hc, ← hq]
      exact h.input_ne_report path hpath r rfl

/-- Rendering files, pass after pass, gives the frames that their pictures give one by one: their
records in the output file, and their account. -/
theorem renderFiles_refines_render [Hypot] [Memory] [ImageLibrary] (report : Option String)
    (frame : String → Frame) (hpaths : paths ≠ []) (hloops : 1 ≤ loops)
    (hlimit : loops * paths.length < ImageSequence.passLimit)
    (hwritable : s.Writable folder paths report) (hrender : ∀ path ∈ paths, ∃ picture log,
      ImageSequence.decode folder path = .ok (.ok picture) ∧
        s.render picture = .ok ⟨.ok (frame path), log⟩) :
    (s.renderFiles paths loops report folder).result = .ok {
        frames := loops * paths.length
        dropped := 0
        cut := ((List.replicate loops paths).flatten.map frame).countP (·.report.isCut)
        blank := ((List.replicate loops paths).flatten.map frame).countP (·.report.isBlank)
        samples := loops * paths.length * (s.width.toNat * s.height.toNat) } ∧
      (s.renderFiles paths loops report folder).folder.read s.output =
        .ok (Frame.stream ((List.replicate loops paths).flatten.map frame)) := by
  have hmem (path : String) (hpath : path ∈ (List.replicate loops paths).flatten) :
      path ∈ paths := by
    obtain ⟨pass, hpass, hpath⟩ := List.mem_flatten.1 hpath
    rwa [List.eq_of_mem_replicate hpass] at hpath
  obtain ⟨path, hhead⟩ : ∃ path, paths.head? = some path :=
    ⟨_, List.head?_eq_some_head hpaths⟩
  have hfirst : path ∈ paths := List.mem_of_mem_head? hhead
  have hvalid : s.fault? = none := by
    obtain ⟨picture, log, -, hframe⟩ := hrender path hfirst
    exact (render_eq_ok hframe).1
  have hlength : 1 ≤ paths.length := List.length_pos_iff.2 hpaths
  have hpasses : loops < ImageSequence.passLimit :=
    Nat.lt_of_le_of_lt (Nat.le_mul_of_pos_right loops hlength) hlimit
  obtain ⟨p, others, g, hcreate, hopens, hother⟩ := hwritable.opens loops
  have hfirst' : path ∈ (List.replicate loops paths).flatten :=
    List.mem_flatten.2 ⟨paths, List.mem_replicate.2 ⟨by omega, rfl⟩, hfirst⟩
  have hsource : (s.session paths loops report).source =
      .images { paths, loops } := rfl
  obtain ⟨hresult, hsummary, hfile, hextends⟩ :=
    Session.run_images (s := s) hsource rfl
      (ImageSequence.showing_start hpaths hloops hpasses (hlimit.trans (by decide)))
      (Processor.serves_ofSettings s) hopens
      ⟨path, hfirst', hhead⟩ (fun r hr => hrender r (hmem r hr))
      (fun r hr => hother r (hmem r hr))
  obtain ⟨log, hrun⟩ := renderFiles_eq loops hvalid hpaths report
  rw [hrun, hresult, hsummary]
  refine ⟨?_, hextends.read_created hcreate hfile⟩
  have hfull : ∀ f ∈ (List.replicate loops paths).flatten.map frame,
      f.samples.size = s.capacity := by
    intro f hf
    obtain ⟨r, hr, rfl⟩ := List.mem_map.1 hf
    obtain ⟨picture, log, -, hframe⟩ := hrender r (hmem r hr)
    exact size_samples_of_render hframe
  have hsamples := Summary.samples_ofFrames hfull
  have hframes : ((List.replicate loops paths).flatten.map frame).length =
      loops * paths.length := by simp
  rw [hframes] at hsamples
  simp only [Except.map, Summary.ofFrames, hframes] at hsamples ⊢
  rw [hsamples]
  rfl

def pixelFile (brightness : UInt8) : ByteArray :=
  ⟨#[0x50, 0x35, 0x20, 0x31, 0x20, 0x31, 0x20, 0x32, 0x35, 0x35, 0x20, brightness]⟩

def pair : Settings :=
  { output := "o", width := 2, height := 1, mode := .raster, columns := 2, rows := 1 }

open scoped Platform in
theorem renderFiles_refines_render_pixel :
    ∃ frame : Frame,
      (pair.renderFiles ["a"] 2 (some "r") ⟨[(["a"], pixelFile 7)], []⟩).result = .ok {
        frames := 2
        cut := [frame, frame].countP (·.report.isCut)
        blank := [frame, frame].countP (·.report.isBlank)
        samples := 4 } ∧
      (pair.renderFiles ["a"] 2 (some "r") ⟨[(["a"], pixelFile 7)], []⟩).folder.read "o" =
        .ok (Frame.stream [frame, frame]) := by
  have hinput : Folder.locate ⟨[(["a"], pixelFile 7)], []⟩ "a" = .ok (.entry [] "a" false) := by cbv
  have houtput : Folder.locate ⟨[(["a"], pixelFile 7)], []⟩ "o" = .ok (.entry [] "o" false) := by cbv
  have hreport : Folder.locate ⟨[(["a"], pixelFile 7)], []⟩ "r" = .ok (.entry [] "r" false) := by cbv
  have hwritable : pair.Writable ⟨[(["a"], pixelFile 7)], []⟩ ["a"] (some "r") := by
    constructor <;> simp only [Option.mem_some, forall_eq', List.mem_singleton, forall_eq,
      Folder.create, Folder.resolve, pair, hinput, houtput, hreport] <;> decide +kernel
  have hdrawn : (((ImageSequence.decode ⟨[(["a"], pixelFile 7)], []⟩ "a").toOption.bind
      Except.toOption).bind fun picture =>
        (pair.render picture).toOption.bind fun r => r.result.toOption).isSome = true := by
    simp only [ImageSequence.decode, Folder.read, hinput]
    decide +kernel
  obtain ⟨frame, hframe⟩ := Option.isSome_iff_exists.1 hdrawn
  obtain ⟨picture, hpicture, hframe⟩ := Option.bind_eq_some_iff.1 hframe
  obtain ⟨decoded, hdecode, hdecoded⟩ := Option.bind_eq_some_iff.1 hpicture
  obtain ⟨⟨result, log⟩, hrender, hresult⟩ := Option.bind_eq_some_iff.1 hframe
  obtain rfl : decoded = .ok picture := eq_ok_of_toOption hdecoded
  obtain rfl : result = .ok frame := eq_ok_of_toOption hresult
  exact ⟨frame, renderFiles_refines_render (some "r") (fun _ => frame) (by simp) (by decide)
    (by decide) hwritable (by
      simpa using ⟨picture, eq_ok_of_toOption hdecode, log, eq_ok_of_toOption hrender⟩)⟩

def single : Settings := { mode := .raster, width := 1, height := 1, columns := 1, rows := 1 }

open scoped Platform in
theorem process_single : ∃ frame processor records,
    Draws.process (Processor.ofSettings single) (.ofPixel 7) =
        .ok ⟨.ok (some frame), processor, records⟩ ∧
      frame.bytes.size = 4 ∧
      (frame.report.jsonLine { frame := 0, time := frame.time, lit := frame.lit }).utf8ByteSize =
        227 := by
  have hdrawn : ((Draws.process (Processor.ofSettings single) (.ofPixel 7)).toOption.bind fun r =>
      r.result.toOption.join.map fun frame => (frame.bytes.size,
        (frame.report.jsonLine { frame := 0, time := frame.time, lit := frame.lit }).utf8ByteSize)) =
      some (4, 227) := by decide +kernel
  obtain ⟨⟨result, processor, records⟩, hreply, hframe⟩ := Option.bind_eq_some_iff.1 hdrawn
  obtain ⟨frame, hframe, hsizes⟩ := Option.map_eq_some_iff.1 hframe
  obtain rfl : result = .ok (some frame) := eq_ok_of_toOption (Option.join_eq_some_iff.1 hframe)
  obtain ⟨hbytes, hline⟩ := Prod.mk.inj hsizes
  exact ⟨frame, processor, records, eq_ok_of_toOption hreply, hbytes, hline⟩

end Settings

def Session.ofPixel [Hypot] (sinks : List Sink) : Session Processor Source Sink where
  processor := .ofSettings .single
  sinks
  source := .pictures (.ofList [.ofPixel 7])

end VectorDisplay
