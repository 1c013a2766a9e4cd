import VectorDisplay.Platform
import VectorDisplay.Proofs.Session.Accounting
import VectorDisplay.Proofs.Sinks.Following
/-!
Sessions in which nothing fails. Main statement: such a session pulls pictures until it has sent as
many frames as it may, its summary counts these rounds, and each of its sinks was sent exactly their
frames, each once and in order; so files of records, lines of reports and hand-offs agree.
-/

set_option autoImplicit false

namespace VectorDisplay

namespace Session

variable {π ς σ : Type} [Draws π] [Supplies ς] [Receives σ] {n : Nat}

/-- A session that has shown some rounds and whose sinks agree on their frames. -/
structure Agrees (session : Session π ς σ) (folder : Folder) (e : Sink → σ)
    (recipients : List (Recipient σ n)) (rounds shown : List Round) (source : ς) : Prop where
  result_eq : (session.run folder).result = .ok ()
  summary_eq : (session.run folder).studio.summary = .ofRounds shown
  frames_eq : (session.run folder).studio.summary.frames =
    Round.due session.maxFrames (Round.frames rounds).length
  frames_add_dropped_eq : (session.run folder).studio.summary.frames +
    (session.run folder).studio.summary.dropped = shown.length
  pulled : ∃ last f, Supplies.Pulled source (shown.map Prod.fst)
      (!Round.enough session.maxFrames (Round.frames shown).length) last ∧
    (session.run folder).source = (Supplies.stop last f).state
  map_watched_eq : (session.watched.run folder).map Watched.sink = session.run folder
  called : List.Forall₂
    (fun _ w => w.calls = .start :: (Round.frames shown).map .send ++ [.stop])
    session.sinks (session.watched.run folder).studio.sinks
  ended : List.Forall₂
    (fun r t => r.Ended e folder (session.run folder).studio.folder (Round.frames shown) t)
    recipients (session.run folder).studio.sinks

variable {session : Session π ς σ} {folder : Folder} {e : Sink → σ}
  {recipients : List (Recipient σ n)}
  {rounds : List Round} {source : ς}

def coursesOf (he : Respects e) (recipients : List (Recipient σ n)) : List (Course (Watched σ) n) :=
  recipients.map fun r => (r.course he).watched

section Courses

variable (he : Respects e)

omit [Draws π] [Supplies ς]

theorem ownAll_coursesOf :
    Course.ownAll (coursesOf he recipients) = recipients.flatMap Recipient.files := by
  rw [Course.ownAll, coursesOf, List.flatMap_map]
  exact congrArg (recipients.flatMap ·) (funext (Recipient.own_course he))

theorem any_held_coursesOf :
    (coursesOf he recipients).any Course.held = recipients.any Recipient.holds := by
  rw [coursesOf, List.any_map]
  exact congrArg recipients.any (funext (Recipient.held_course he))

theorem apart_coursesOf (hapart : recipients.Pairwise fun r r' => r.files.Disjoint r'.files) :
    (coursesOf he recipients).Pairwise Course.Apart := by
  rw [coursesOf, List.pairwise_map]
  refine hapart.imp fun h => ?_
  simpa [Course.Apart, Course.watched] using h

theorem starts_coursesOf (hsinks : session.sinks = recipients.map (Recipient.sink e))
    (hready : ∀ r ∈ recipients, r.Ready folder) :
    List.Forall₂ (Course.Starts folder) (coursesOf he recipients) session.watched.sinks := by
  have hwatched : session.watched.sinks = session.sinks.map Watched.ofSink := rfl
  rw [hwatched, hsinks, List.map_map, coursesOf, List.forall₂_map_left_iff,
    List.forall₂_map_right_iff, List.forall₂_same]
  exact fun r hr => Course.starts_watched (Recipient.starts_course he (hready r hr))

end Courses

omit [Receives σ] in
theorem Plays.watched {calm : Folder → Prop} {kept : Bool}
    (h : session.Plays folder calm kept rounds source) :
    session.watched.Plays folder calm kept rounds source :=
  ⟨h.start_source, h.feeds, h.start_processor, h.stop_source⟩

structure Script where
  outcomes : List (Option Frame)

instance : Draws Script where
  start s size := ⟨.ok size, s, []⟩
  process s _ := .ok ⟨.ok s.outcomes.head?.join, ⟨s.outcomes.tail⟩, []⟩
  recycle s _ := s

theorem Script.plays (kept : Bool) (rounds : List Round) :
    Draws.Plays kept rounds (Script.mk (rounds.map Prod.snd)) := by
  induction rounds with
  | nil => trivial
  | cons round rest ih =>
    obtain ⟨picture, _ | frame⟩ := round
    · exact ⟨_, _, rfl, ih⟩
    · cases kept <;> exact ⟨_, _, rfl, ih⟩

theorem feeds_pictures [ImageLibrary] (calm : Folder → Prop) (pictures : List Picture)
    (size : Size) :
    Supplies.Feeds calm pictures (Source.pictures ⟨pictures, size⟩) := by
  induction pictures with
  | nil => exact fun _ _ => ⟨_, _, rfl⟩
  | cons picture rest ih => exact fun _ _ => ⟨_, _, rfl, ih⟩

def postedRounds : List Round :=
  [(.ofPixel 7, none), (.ofPixel 8, some .dot), (.ofPixel 9, some .dot), (.ofPixel 9, some .dot)]

def posted : Session Script Source Sink where
  processor := ⟨postedRounds.map Prod.snd⟩
  sinks := [.file { path := "o" }, .report { path := "r" },
    .handoff { channel := .ofDepth 1, attended := true }]
  source := .pictures (.ofList (postedRounds.map Prod.fst))
  maxFrames := some 2

def postedTo : List (Recipient Sink 2) :=
  [.file { path := "o" } ["o"] .empty, .report { path := "r" } ["r"] .empty,
    .handoff { channel := .ofDepth 1, attended := true }]

def crowded [Hypot] : Session Processor Source Sink :=
  ofPixel [.file { path := "o" }, .report { path := "o" }]

theorem run_ofPixel [Hypot] [Memory] [ImageLibrary] {sinks opened full closed : List Sink}
    {folder g g' g'' : Folder}
    {startLog sendLog stopLog processLog : Log} {frame : Frame} {processor : Processor}
    (hprocess : Draws.process (Processor.ofSettings .single) (.ofPixel 7) =
      .ok ⟨.ok (some frame), processor, processLog⟩)
    (hstart : Sink.startAll sinks folder = ⟨.ok (), (opened, g), startLog⟩)
    (hsend : Sink.sendAll frame opened g = .ok ⟨.ok (), (full, g'), sendLog⟩)
    (hstop : Sink.stopAll full g' = ⟨.ok (), (closed, g''), stopLog⟩) :
    ((ofPixel sinks).run folder).result = .ok () ∧
      ((ofPixel sinks).run folder).studio.summary = Summary.add {} frame ∧
      ((ofPixel sinks).run folder).studio.folder = g'' := by
  let begun : Studio Processor Sink := ⟨(ofPixel sinks).processor, opened, g, {}, []⟩
  obtain ⟨log, hstarted⟩ : ∃ log, (ofPixel sinks).start folder =
      ⟨.ok (), (ofPixel sinks).source, { begun with log := log }⟩ :=
    start_of_ok rfl rfl hstart
  obtain ⟨s, source, hshow, hsinks, hfolder, hsummary⟩ : ∃ s source,
      ({ begun with log := log }).showAll none (ofPixel sinks).source =
        ⟨.ok (), source, s⟩ ∧ s.sinks = full ∧ s.folder = g' ∧ s.summary = Summary.add {} frame :=
    ⟨_, _, (Studio.showAll_of_some rfl rfl (Studio.draw_of_some hprocess hsend)).trans
      (Studio.showAll_of_none rfl rfl), rfl, rfl, rfl⟩
  rw [← hsinks, ← hfolder] at hstop
  obtain ⟨records, hclose⟩ := Studio.close_of_ok hstop
  obtain ⟨records', hrun⟩ := run_of_ok hstarted hshow hclose rfl
  rw [hrun]
  exact ⟨rfl, hsummary, rfl⟩

end Session

end VectorDisplay
