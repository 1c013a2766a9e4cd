import VectorDisplay.Proofs.Session
set_option autoImplicit false

namespace VectorDisplay

def SinkReply.map {σ τ : Type} (e : σ → τ) (r : SinkReply σ) : SinkReply τ :=
  ⟨r.result, (e r.state.1, r.state.2), r.log⟩

/-- A map of sinks after which every operation does what it does before. -/
structure Respects {σ τ : Type} [Receives σ] [Receives τ] (e : σ → τ) : Prop where
  start_eq (s : σ) (f : Folder) : Receives.start (e s) f = (Receives.start s f).map e
  send_eq (s : σ) (frame : Frame) (f : Folder) :
    Receives.send (e s) frame f = (Receives.send s frame f).map (SinkReply.map e)
  stop_eq (s : σ) (f : Folder) : Receives.stop (e s) f = (Receives.stop s f).map e
  holdsFrames_eq (s : σ) : Receives.holdsFrames (e s) = Receives.holdsFrames s

section Maps

variable {π ς σ τ : Type}

def Studio.map (e : σ → τ) (s : Studio π σ) : Studio π τ :=
  ⟨s.processor, s.sinks.map e, s.folder, s.summary, s.log⟩

@[simp] theorem Studio.note_map (e : σ → τ) (s : Studio π σ) (log : Log) :
    (s.map e).note log = (s.note log).map e := rfl

def Ending.map (e : σ → τ) (ending : Ending π ς σ) : Ending π ς τ :=
  ⟨ending.result, ending.source, ending.studio.map e⟩

def Session.map (e : σ → τ) (s : Session π ς σ) : Session π ς τ :=
  ⟨s.processor, s.sinks.map e, s.source, s.maxFrames⟩

namespace Session

variable [Draws π] [Supplies ς] [Receives σ]

/-- Where a session stands once its last picture is shown, or where it failed to show one. -/
def shown (session : Session π ς σ) (folder : Folder) : Ending π ς σ :=
  (session.start folder).studio.showAll session.maxFrames (session.start folder).source

theorem run_eq (session : Session π ς σ) (folder : Folder) :
    session.run folder = match (session.start folder).result with
      | .error _ => session.start folder
      | .ok () => match (session.shown folder).result with
        | .error _ => session.shown folder
        | .ok () => finish (session.shown folder) := rfl

end Session

theorem Sink.each_map {e : σ → τ} {op : σ → Folder → SinkReply σ} {op' : τ → Folder → SinkReply τ}
    (h : ∀ s f, op' (e s) f = (op s f).map e) (sinks : List σ) (folder : Folder) :
    each op' (sinks.map e) folder = (each op sinks folder).map (List.map e) := by
  induction sinks generalizing folder with
  | nil => rfl
  | cons s rest ih =>
    simp only [List.map_cons, each, h, SinkReply.map, ih]
    cases (op s folder).result <;> rfl

variable [Receives σ] [Receives τ] {e : σ → τ} (h : Respects e)

include h

theorem Sink.startAll_map (sinks : List σ) (folder : Folder) :
    startAll (sinks.map e) folder = (startAll sinks folder).map (List.map e) :=
  each_map h.start_eq sinks folder

theorem Sink.stopAll_map (sinks : List σ) (folder : Folder) :
    stopAll (sinks.map e) folder = (stopAll sinks folder).map (List.map e) :=
  each_map h.stop_eq sinks folder

theorem Sink.sendAll_map (frame : Frame) (sinks : List σ) (folder : Folder) :
    sendAll frame (sinks.map e) folder =
      (sendAll frame sinks folder).map (SinkReply.map (List.map e)) := by
  induction sinks generalizing folder with
  | nil => rfl
  | cons s rest ih =>
    simp only [List.map_cons, sendAll, h.send_eq]
    cases Receives.send s frame folder with
    | error fault => rfl
    | ok first =>
      simp only [Except.map, SinkReply.map, ih]
      cases sendAll frame rest first.state.2 <;> rfl

theorem Sink.any_holdsFrames_map (sinks : List σ) :
    (sinks.map e).any Receives.holdsFrames = sinks.any Receives.holdsFrames := by
  rw [List.any_map]
  exact congrArg sinks.any (funext h.holdsFrames_eq)

namespace Studio

theorem close_map (s : Studio π σ) : (s.map e).close = (s.close.1, s.close.2.map e) := by
  simp only [close, map, Sink.stopAll_map h]
  rfl

variable [Draws π]

theorem send_map (s : Studio π σ) (frame : Frame) :
    (s.map e).send frame = ((s.send frame).1, (s.send frame).2.map e) := by
  simp only [send, map, Sink.sendAll_map h]
  cases Sink.sendAll frame s.sinks s.folder with
  | error fault => rfl
  | ok reply =>
    simp only [Except.map, SinkReply.map, note, Sink.any_holdsFrames_map h]
    cases reply.result with
    | error error => rfl
    | ok _ => by_cases hheld : reply.state.1.any Receives.holdsFrames = true <;> simp [hheld]

theorem draw_map (s : Studio π σ) (picture : Picture) :
    (s.map e).draw picture = ((s.draw picture).1, (s.draw picture).2.map e) := by
  have hprocessor : (s.map e).processor = s.processor := rfl
  simp only [draw, hprocessor]
  cases Draws.process s.processor picture with
  | error fault => rfl
  | ok reply =>
    dsimp only
    cases reply.result with
    | error error => rfl
    | ok drawn =>
      cases drawn with
      | none => rfl
      | some frame =>
        exact send_map h (({ s with processor := reply.state } : Studio π σ).note reply.log) frame

variable [Supplies ς]

theorem showAll_map (maxFrames : Option Nat) (source : ς) (s : Studio π σ) :
    (s.map e).showAll maxFrames source = (s.showAll maxFrames source).map e := by
  have hfolder (s : Studio π σ) : (s.map e).folder = s.folder := rfl
  have hsummary (s : Studio π σ) : (s.map e).summary = s.summary := rfl
  induction hahead : Supplies.ahead source using Nat.strongRecOn generalizing source s with
  | ind n ih =>
    rw [showAll_eq, showAll_eq, hsummary]
    by_cases henough : maxFrames.any (· ≤ s.summary.frames) = true
    · rw [if_pos henough, if_pos henough]
      rfl
    · rw [if_neg henough, if_neg henough]
      simp only [hfolder, note_map, draw_map h]
      cases hnext : Supplies.next source s.folder with
      | error fault => rfl
      | ok reply =>
        dsimp only
        cases hresult : reply.result with
        | error error => rfl
        | ok pulled =>
          cases pulled with
          | none => rfl
          | some picture =>
            have hless := Supplies.ahead_next hnext hresult
            dsimp only
            generalize (s.note reply.log).draw picture = drawn
            obtain ⟨result, s'⟩ := drawn
            cases result with
            | error failure => rfl
            | ok _ => exact ih _ (hahead ▸ hless) reply.state s' rfl

end Studio

namespace Session

variable [Draws π] [Supplies ς]

theorem start_map (session : Session π ς σ) (folder : Folder) :
    (session.map e).start folder = (session.start folder).map e := by
  simp only [start, map, Studio.note]
  cases Supplies.start session.source folder with
  | error fault => rfl
  | ok started =>
    dsimp only
    cases started.result with
    | error error => rfl
    | ok _ =>
      dsimp only
      cases (Draws.start session.processor (Supplies.size started.state)).result with
      | error error => rfl
      | ok output =>
        simp only [Sink.startAll_map h, SinkReply.map]
        cases (Sink.startAll session.sinks folder).result with
        | error error => rfl
        | ok _ => simp [Ending.map, Studio.map]

omit [Draws π] in
theorem finish_map (shown : Ending π ς σ) : finish (shown.map e) = (finish shown).map e := by
  simp only [finish, Ending.map, Studio.close_map h]
  generalize shown.studio.close = closed
  obtain ⟨result, studio⟩ := closed
  cases result with
  | error failure => rfl
  | ok _ =>
    dsimp only [Studio.map]
    cases (Supplies.stop shown.source studio.folder).result <;> rfl

theorem shown_map (session : Session π ς σ) (folder : Folder) :
    (session.map e).shown folder = (session.shown folder).map e := by
  rw [shown, start_map h]
  exact Studio.showAll_map h _ _ _

/-- A session over what a map that respects sinks makes of them does what it does over the sinks. -/
theorem run_map (session : Session π ς σ) (folder : Folder) :
    (session.map e).run folder = (session.run folder).map e := by
  have hresult (ending : Ending π ς σ) : (ending.map e).result = ending.result := rfl
  rw [run_eq, run_eq, start_map h, shown_map h, hresult, hresult]
  cases (session.start folder).result with
  | error failure => rfl
  | ok _ =>
    dsimp only
    cases (session.shown folder).result with
    | error failure => rfl
    | ok _ => exact finish_map h _

end Session

end Maps

/-- A sink with the calls that it got. -/
structure Watched (σ : Type) where
  sink : σ
  calls : List Sink.Use := []

namespace Watched

variable {σ : Type}

def ofSink (sink : σ) : Watched σ := { sink }

def called (w : Watched σ) (call : Sink.Use) (sink : σ) : Watched σ := ⟨sink, w.calls ++ [call]⟩

variable [Receives σ]

instance : Receives (Watched σ) where
  start w folder := (Receives.start w.sink folder).map (w.called .start)
  send w frame folder :=
    (Receives.send w.sink frame folder).map (SinkReply.map (w.called (.send frame)))
  stop w folder := (Receives.stop w.sink folder).map (w.called .stop)
  holdsFrames w := Receives.holdsFrames w.sink

theorem start_eq (w : Watched σ) (folder : Folder) :
    Receives.start w folder = (Receives.start w.sink folder).map (w.called .start) := rfl

theorem send_eq (w : Watched σ) (frame : Frame) (folder : Folder) :
    Receives.send w frame folder =
      (Receives.send w.sink frame folder).map (SinkReply.map (w.called (.send frame))) := rfl

theorem stop_eq (w : Watched σ) (folder : Folder) :
    Receives.stop w folder = (Receives.stop w.sink folder).map (w.called .stop) := rfl

theorem respects_sink : Respects (sink : Watched σ → σ) where
  start_eq _ _ := rfl
  send_eq w frame folder := by
    rw [send_eq]
    cases Receives.send w.sink frame folder <;> rfl
  stop_eq _ _ := rfl
  holdsFrames_eq _ := rfl

end Watched

namespace Session

variable {π ς σ : Type}

def watched (s : Session π ς σ) : Session π ς (Watched σ) := s.map .ofSink

theorem map_watched (s : Session π ς σ) : s.watched.map Watched.sink = s := by
  simp [watched, map, Watched.ofSink, Function.comp_def]

variable [Draws π] [Supplies ς] [Receives σ]

theorem map_run_watched (session : Session π ς σ) (folder : Folder) :
    (session.watched.run folder).map Watched.sink = session.run folder := by
  rw [← run_map Watched.respects_sink, map_watched]

end Session

end VectorDisplay
