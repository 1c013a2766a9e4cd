import VectorDisplay.Platform
import VectorDisplay.Proofs.Session.Watching
/-!
Which sinks are told to stop when a session ends. Main statement: a session that fails before its last
picture is shown tells none of them, and one that fails while it stops its sinks leaves those behind
the one that failed as they are.
-/

set_option autoImplicit false

namespace VectorDisplay

variable {π ς σ : Type}

namespace Sink

structure AllOf (P : σ → Prop) (n : Nat) (sinks : List σ) : Prop where
  length_eq : sinks.length = n
  all : ∀ s ∈ sinks, P s

variable {P : σ → Prop} {n : Nat} {sinks : List σ}

theorem AllOf.each {op : σ → Folder → SinkReply σ} (h : AllOf P n sinks)
    (hop : ∀ s f, P s → P (op s f).state.1) (folder : Folder) :
    AllOf P n (each op sinks folder).state.1 := by
  obtain ⟨rfl, hall⟩ := h
  induction sinks generalizing folder with
  | nil => exact ⟨rfl, hall⟩
  | cons s rest ih =>
    rw [List.forall_mem_cons] at hall
    have hs := hop s folder hall.1
    simp only [Sink.each]
    cases (op s folder).result with
    | error error => exact ⟨rfl, List.forall_mem_cons.2 ⟨hs, hall.2⟩⟩
    | ok _ =>
      obtain ⟨hlength, hrest⟩ := ih (op s folder).state.2 hall.2
      exact ⟨congrArg (· + 1) hlength, List.forall_mem_cons.2 ⟨hs, hrest⟩⟩

variable [Receives σ]

theorem AllOf.sendAll (h : AllOf P n sinks) {frame : Frame} {folder : Folder}
    {reply : SinkReply (List σ)}
    (hsend : ∀ s f r, P s → Receives.send s frame f = .ok r → P r.state.1)
    (hreply : sendAll frame sinks folder = .ok reply) : AllOf P n reply.state.1 := by
  obtain ⟨rfl, hall⟩ := h
  induction sinks generalizing folder reply with
  | nil =>
    cases hreply
    exact ⟨rfl, hall⟩
  | cons s rest ih =>
    rw [List.forall_mem_cons] at hall
    simp only [Sink.sendAll] at hreply
    split at hreply
    · cases hreply
    · next first hfirst =>
      split at hreply
      · cases hreply
      · next others hothers =>
        cases hreply
        obtain ⟨hlength, hrest⟩ := ih hothers hall.2
        exact ⟨congrArg (· + 1) hlength,
          List.forall_mem_cons.2 ⟨hsend s _ first hall.1 hfirst, hrest⟩⟩

theorem stopAll_take_eq_ok {folder : Folder} (hok : (stopAll sinks folder).result = .ok ())
    (i : Nat) :
    (stopAll (sinks.take i) folder).result = .ok () := by
  unfold stopAll at hok ⊢
  induction sinks generalizing folder i with
  | nil => simp [Sink.each]
  | cons s rest ih =>
    cases i with
    | zero => rfl
    | succ i =>
      simp only [List.take_succ_cons, Sink.each] at hok ⊢
      cases hfirst : (Receives.stop s folder).result with
      | error error =>
        rw [hfirst] at hok
        cases hok
      | ok _ =>
        rw [hfirst] at hok
        exact ih hok i

end Sink

section Shown

variable [Draws π] [Supplies ς] [Receives σ]

theorem Studio.showAll_preserves {P : Studio π σ → Prop} (hnote : ∀ s log, P s → P (s.note log))
    (hdraw : ∀ s picture, P s → P (s.draw picture).2) (maxFrames : Option Nat) (source : ς)
    {s : Studio π σ} (hs : P s) : P (s.showAll maxFrames source).studio := by
  induction hahead : Supplies.ahead source using Nat.strongRecOn generalizing source s with
  | ind n ih =>
    rw [showAll_eq]
    by_cases henough : maxFrames.any (· ≤ s.summary.frames) = true
    · rwa [if_pos henough]
    · rw [if_neg henough]
      cases hnext : Supplies.next source s.folder with
      | error fault => exact hs
      | ok reply =>
        dsimp only
        cases hresult : reply.result with
        | error error => exact hnote s _ hs
        | ok pulled =>
          cases pulled with
          | none => exact hnote s _ hs
          | some picture =>
            have hless := Supplies.ahead_next hnext hresult
            have hdrawn := hdraw _ picture (hnote s reply.log hs)
            dsimp only
            generalize (s.note reply.log).draw picture = drawn at hdrawn ⊢
            obtain ⟨result, s'⟩ := drawn
            cases result with
            | error failure => exact hdrawn
            | ok _ => exact ih _ (hahead ▸ hless) reply.state hdrawn rfl

structure Sink.Kept (P : σ → Prop) : Prop where
  start {s : σ} (f : Folder) : P s → P (Receives.start s f).state.1
  send {s : σ} {frame : Frame} {f : Folder} {r : SinkReply σ} :
    P s → Receives.send s frame f = .ok r → P r.state.1

variable {P : σ → Prop} (h : Sink.Kept P) {n : Nat}

include h

theorem Studio.allOf_send {s : Studio π σ} (hs : Sink.AllOf P n s.sinks) (frame : Frame) :
    Sink.AllOf P n (s.send frame).2.sinks := by
  unfold send
  dsimp only
  cases hsend : Sink.sendAll frame s.sinks s.folder with
  | error fault => exact hs
  | ok reply =>
    have hsent := hs.sendAll (fun _ _ _ ht hr => h.send ht hr) hsend
    dsimp only [note]
    cases reply.result with
    | error error => exact hsent
    | ok _ =>
      by_cases hheld : reply.state.1.any Receives.holdsFrames = true <;> simpa [hheld] using hsent

theorem Studio.allOf_draw {s : Studio π σ} (hs : Sink.AllOf P n s.sinks) (picture : Picture) :
    Sink.AllOf P n (s.draw picture).2.sinks := by
  unfold draw
  cases Draws.process s.processor picture with
  | error fault => exact hs
  | ok reply =>
    dsimp only
    cases reply.result with
    | error error => exact hs
    | ok drawn =>
      cases drawn with
      | none => exact hs
      | some frame =>
        exact allOf_send h (s := ({ s with processor := reply.state }).note reply.log) hs frame

theorem Session.allOf_start {session : Session π ς σ} (hs : Sink.AllOf P n session.sinks)
    (folder : Folder) : Sink.AllOf P n (session.start folder).studio.sinks := by
  unfold start
  cases Supplies.start session.source folder with
  | error fault => exact hs
  | ok started =>
    dsimp only
    cases started.result with
    | error error => exact hs
    | ok _ =>
      dsimp only [Studio.note]
      cases (Draws.start session.processor (Supplies.size started.state)).result with
      | error error => exact hs
      | ok output =>
        have hopened := hs.each (fun _ => h.start) folder
        dsimp only [Sink.startAll]
        cases (Sink.each Receives.start session.sinks folder).result <;> exact hopened

theorem Session.allOf_shown {session : Session π ς σ} (hs : Sink.AllOf P n session.sinks)
    (folder : Folder) : Sink.AllOf P n (session.shown folder).studio.sinks :=
  Studio.showAll_preserves (P := fun t => Sink.AllOf P n t.sinks) (fun _ _ ht => ht)
    (fun _ picture ht => Studio.allOf_draw h ht picture) _ _ (allOf_start h hs folder)

end Shown

namespace Watched

variable [Receives σ]

def Open (w : Watched σ) : Prop := .stop ∉ w.calls

omit [Receives σ] in
theorem Open.called {w : Watched σ} (h : w.Open) {call : Sink.Use} (hcall : call ≠ .stop) (s : σ) :
    (w.called call s).Open := by
  simpa [Open, Watched.called, hcall.symm] using h

theorem kept_open : Sink.Kept (Open : Watched σ → Prop) where
  start _ hw := hw.called (by simp) _
  send {w frame f r} hw hr := by
    rw [send_eq] at hr
    cases hsend : Receives.send w.sink frame f with
    | error fault =>
      rw [hsend] at hr
      cases hr
    | ok reply =>
      rw [hsend] at hr
      cases hr
      exact hw.called (by simp) _

theorem stop_mem_iff {sinks : List (Watched σ)} (hopen : ∀ w ∈ sinks, w.Open) {folder : Folder}
    {i : Nat} {w : Watched σ} (hw : (Sink.stopAll sinks folder).state.1[i]? = some w) :
    .stop ∈ w.calls ↔ (Sink.stopAll (sinks.take i) folder).result = .ok () := by
  unfold Sink.stopAll at hw ⊢
  induction sinks generalizing folder i with
  | nil => simp [Sink.each] at hw
  | cons s rest ih =>
    rw [List.forall_mem_cons] at hopen
    have hstopped : .stop ∈ (Receives.stop s folder).state.1.calls := by
      simp [stop_eq, SinkReply.map, called]
    simp only [Sink.each] at hw
    cases hfirst : (Receives.stop s folder).result with
    | error error =>
      rw [hfirst] at hw
      cases i with
      | zero =>
        obtain rfl : _ = w := by simpa using hw
        simpa [Sink.each] using hstopped
      | succ i =>
        have hmem : w ∈ rest := List.mem_of_getElem? (by simpa using hw)
        simpa [Sink.each, hfirst, Open] using hopen.2 w hmem
    | ok _ =>
      rw [hfirst] at hw
      cases i with
      | zero =>
        obtain rfl : _ = w := by simpa using hw
        simpa [Sink.each] using hstopped
      | succ i =>
        have hrest := ih hopen.2 (by simpa using hw)
        simpa [Sink.each, hfirst] using hrest

end Watched

theorem Session.sinks_finish [Supplies ς] [Receives σ] (e : Ending π ς σ) :
    (finish e).studio.sinks = (Sink.stopAll e.studio.sinks e.studio.folder).state.1 := by
  unfold finish Studio.close
  dsimp only
  cases (Sink.stopAll e.studio.sinks e.studio.folder).result with
  | error error => rfl
  | ok _ =>
    dsimp only [Except.mapError]
    split <;> rfl

theorem Session.stopAll_of_finish [Supplies ς] [Receives σ] {e : Ending π ς σ}
    (hok : (finish e).result = .ok ()) :
    (Sink.stopAll e.studio.sinks e.studio.folder).result = .ok () := by
  unfold finish Studio.close at hok
  dsimp only at hok
  cases hresult : (Sink.stopAll e.studio.sinks e.studio.folder).result with
  | error error =>
    rw [hresult] at hok
    cases hok
  | ok _ => rfl

namespace Session

section Run

variable [Draws π] [Supplies ς] [Receives σ] {session : Session π ς σ} {folder : Folder}

theorem run_of_failed {failure : Failure} (hstart : (session.start folder).result = .ok ())
    (hshown : (session.shown folder).result = .error failure) :
    session.run folder = session.shown folder := by
  rw [run_eq, hstart, hshown]

theorem run_of_shown (hstart : (session.start folder).result = .ok ())
    (hshown : (session.shown folder).result = .ok ()) :
    session.run folder = finish (session.shown folder) := by
  rw [run_eq, hstart, hshown]

theorem shown_of_run (hstart : (session.start folder).result = .ok ())
    (hok : (session.run folder).result = .ok ()) : (session.shown folder).result = .ok () := by
  cases hshown : (session.shown folder).result with
  | error failure => rw [← hok, run_of_failed hstart hshown, hshown]
  | ok _ => rfl

theorem result_start_watched (session : Session π ς σ) (folder : Folder) :
    (session.watched.start folder).result = (session.start folder).result := by
  have hstart := start_map Watched.respects_sink session.watched folder
  rw [map_watched] at hstart
  exact (congrArg Ending.result hstart).symm

theorem map_shown_watched (session : Session π ς σ) (folder : Folder) :
    (session.watched.shown folder).map Watched.sink = session.shown folder := by
  rw [← shown_map Watched.respects_sink, map_watched]

theorem result_shown_watched (session : Session π ς σ) (folder : Folder) :
    (session.watched.shown folder).result = (session.shown folder).result :=
  congrArg Ending.result (map_shown_watched session folder)

theorem open_shown_watched (session : Session π ς σ) (folder : Folder) :
    Sink.AllOf Watched.Open session.sinks.length (session.watched.shown folder).studio.sinks := by
  refine allOf_shown Watched.kept_open ⟨List.length_map _, ?_⟩ folder
  intro w hw
  obtain ⟨s, -, rfl⟩ := List.mem_map.1 hw
  exact List.not_mem_nil

theorem result_stopAll_watched (session : Session π ς σ) (folder : Folder) (i : Nat) :
    (Sink.stopAll ((session.watched.shown folder).studio.sinks.take i)
        (session.watched.shown folder).studio.folder).result =
      (Sink.stopAll ((session.shown folder).studio.sinks.take i)
        (session.shown folder).studio.folder).result := by
  rw [← map_shown_watched session folder]
  dsimp only [Ending.map, Studio.map]
  rw [← List.map_take, Sink.stopAll_map Watched.respects_sink]
  rfl

/-- How a session that has started treats its sinks when it ends. -/
structure StopsInTurn (session : Session π ς σ) (folder : Folder) : Prop where
  map_watched_eq : (session.watched.run folder).map Watched.sink = session.run folder
  length_eq : (session.watched.run folder).studio.sinks.length = session.sinks.length
  run_eq_shown {failure : Failure} : (session.shown folder).result = .error failure →
    session.run folder = session.shown folder
  stop_mem_iff {i : Nat} {w : Watched σ} :
    (session.watched.run folder).studio.sinks[i]? = some w →
      (.stop ∈ w.calls ↔ (session.shown folder).result = .ok () ∧
        (Sink.stopAll ((session.shown folder).studio.sinks.take i)
          (session.shown folder).studio.folder).result = .ok ())
  stop_mem_of_ok : (session.run folder).result = .ok () →
    ∀ w ∈ (session.watched.run folder).studio.sinks, .stop ∈ w.calls

theorem stop_mem_run_iff (hstart : (session.start folder).result = .ok ()) {i : Nat} {w : Watched σ}
    (hw : (session.watched.run folder).studio.sinks[i]? = some w) :
    .stop ∈ w.calls ↔ (session.shown folder).result = .ok () ∧
      (Sink.stopAll ((session.shown folder).studio.sinks.take i)
        (session.shown folder).studio.folder).result = .ok () := by
  have hopen := (open_shown_watched session folder).all
  rw [← result_start_watched] at hstart
  cases hshown : (session.shown folder).result with
  | error failure =>
    rw [← result_shown_watched] at hshown
    rw [run_of_failed hstart hshown] at hw
    simpa [Watched.Open] using hopen w (List.mem_of_getElem? hw)
  | ok _ =>
    rw [← result_shown_watched] at hshown
    rw [run_of_shown hstart hshown, sinks_finish] at hw
    simpa [result_stopAll_watched] using Watched.stop_mem_iff hopen hw

theorem length_sinks_run (hstart : (session.start folder).result = .ok ()) :
    (session.watched.run folder).studio.sinks.length = session.sinks.length := by
  have hopen := open_shown_watched session folder
  rw [← result_start_watched] at hstart
  cases hshown : (session.watched.shown folder).result with
  | error failure =>
    rw [run_of_failed hstart hshown]
    exact hopen.length_eq
  | ok _ =>
    have hlength : Sink.AllOf (fun _ => True) session.sinks.length
        (session.watched.shown folder).studio.sinks := ⟨hopen.length_eq, fun _ _ => trivial⟩
    rw [run_of_shown hstart hshown, sinks_finish]
    exact (hlength.each (fun _ _ _ => trivial) _).length_eq

/-- A session that has started tells its sinks to stop one after the other once all pictures are
shown, and up to the first that fails to; a session that fails before tells none of them. -/
theorem stops_in_turn (hstart : (session.start folder).result = .ok ()) :
    session.StopsInTurn folder where
  map_watched_eq := map_run_watched session folder
  length_eq := length_sinks_run hstart
  run_eq_shown := run_of_failed hstart
  stop_mem_iff := stop_mem_run_iff hstart
  stop_mem_of_ok := by
    intro hok w hw
    obtain ⟨i, hi⟩ := List.mem_iff_getElem?.1 hw
    have hshown := shown_of_run hstart hok
    rw [run_of_shown hstart hshown] at hok
    exact (stop_mem_run_iff hstart hi).2 ⟨hshown, Sink.stopAll_take_eq_ok (stopAll_of_finish hok) i⟩

end Run

def deadHandoff : Sink := .handoff { channel := { depth := 1, subscribed := false } }

def unheard [Hypot] : Session Processor Source Sink := ofPixel [.file { path := "o" }, deadHandoff]

open scoped Platform in
theorem stops_in_turn_unheard :
    unheard.StopsInTurn {} ∧
      (unheard.run {}).result = .error (.error Handoff.noSubscriber) ∧
      (unheard.run {}).studio.summary.frames = 1 ∧
      (unheard.run {}).studio.folder.read "o" = .ok .empty := by
  have hcreate : Folder.create {} "o" = .ok (["o"], Folder.put {} ["o"] .empty) := by cbv
  have hempty : (Folder.put {} ["o"] .empty).read "o" = .ok .empty := by cbv
  let opened : List Sink := [.file { path := "o", writer := some { path := ["o"] } }, deadHandoff]
  have hsinks : Sink.startAll unheard.sinks {} = ⟨.ok (), (opened, Folder.put {} ["o"] .empty),
      [.info "initialized file stream to 'o'"]⟩ := by
    simp [unheard, ofPixel, opened, deadHandoff, Sink.startAll, Sink.each, Sink.start,
      FileSink.start, hcreate, Sink.lift]
  obtain ⟨log, hstart⟩ := start_of_ok rfl rfl hsinks
  obtain ⟨frame, processor, records, hprocess, hbytes, -⟩ := Settings.process_single
  obtain ⟨sinks, hsent⟩ : ∃ sinks, Sink.sendAll frame opened (Folder.put {} ["o"] .empty) =
      .ok ⟨.error Handoff.noSubscriber, (sinks, Folder.put {} ["o"] .empty), []⟩ := by
    simp [opened, deadHandoff, Sink.sendAll, Sink.send, FileSink.send, Sink.lift, Writer.write,
      Writer.limit, hbytes, HandoffSink.send, Handoff.publish, Except.bind]
  obtain ⟨source, hnext⟩ : ∃ source, Supplies.next (unheard.start {}).source
      (unheard.start {}).studio.folder = .ok ⟨.ok (some (.ofPixel 7)), source, []⟩ := by
    rw [hstart]
    exact ⟨_, rfl⟩
  have hmore : unheard.maxFrames.any (· ≤ (unheard.start {}).studio.summary.frames) = false := rfl
  have hdraw : ((unheard.start {}).studio.note []).draw (.ofPixel 7) =
      (.error (.error Handoff.noSubscriber), ⟨processor, sinks, Folder.put {} ["o"] .empty,
        Summary.add {} frame, log ++ [] ++ records ++ []⟩) := by
    rw [hstart, Studio.draw]
    simp only [Studio.note, unheard, ofPixel, hprocess, Studio.send, hsent]
  have hshown := Studio.showAll_of_failed hmore hnext hdraw
  have hrun := run_of_failed (hstart ▸ rfl) (congrArg Ending.result hshown)
  rw [shown, hshown] at hrun
  rw [hrun]
  exact ⟨stops_in_turn (hstart ▸ rfl), rfl, rfl, hempty⟩

end Session

end VectorDisplay
