import VectorDisplay.Proofs.Sinks.Feeding
import VectorDisplay.Proofs.Sinks.Following
set_option autoImplicit false

namespace VectorDisplay

namespace HandoffSink

theorem after_append (s : HandoffSink) (first rest : List Frame) :
    (s.after first).after rest = s.after (first ++ rest) := by
  unfold after
  by_cases hattended : s.attended = true <;> simp [hattended]

theorem eq_after_of_send {s t : HandoffSink} {frame : Frame} (h : s.send frame = .ok (.ok (), t)) :
    t = s.after [frame] := by
  unfold send Handoff.publish at h
  cases hsubscribed : s.channel.subscribed with
  | false => simp [hsubscribed] at h
  | true =>
    cases hattended : s.attended with
    | true => simpa [after, hattended, hsubscribed, eq_comm] using h
    | false =>
      by_cases hfull : s.channel.isFull = true
      · simp [hattended, hsubscribed, hfull] at h
      · simpa [after, hattended, hsubscribed, hfull, eq_comm] using h

end HandoffSink

namespace Sink

/-- Sinks in one list that are independent of each other. What a sink makes of a frame does not
depend on its place in the list, so it does not matter in which order the sinks take the frame. -/
structure FansOut {σ : Type} [Receives σ] [Separate σ] (sinks : List σ) (folder : Folder) :
    Prop where
  sends_iff {frame : Frame} : (∃ joint, sendAll frame sinks folder = .ok joint) ↔
    ∀ s ∈ sinks, ∃ own, Receives.send s frame folder = .ok own
  sent {frame : Frame} {joint : SinkReply (List σ)} : sendAll frame sinks folder = .ok joint →
    ∃ own, SentApart frame folder sinks joint own
  feeds_iff {frames : List Frame} : (∃ joint, feedAll frames sinks folder = .ok joint) ↔
    ∀ s ∈ sinks, ∃ own, feedOne frames s folder = .ok own
  fed {frames : List Frame} {joint : Fed (List σ)} : feedAll frames sinks folder = .ok joint →
    ∃ own, FedApart frames folder sinks joint own
  offered {frames : List Frame} {joint : Fed (List σ)} :
    feedAll frames sinks folder = .ok joint →
    ∃ watched, feedAll frames (sinks.map Watched.ofSink) folder = .ok watched ∧
      watched.map (List.map Watched.sink) = joint ∧
      ∀ w ∈ watched.state, w.calls = frames.map .send
  extends_folder {frames : List Frame} {joint : Fed (List σ)} :
    feedAll frames sinks folder = .ok joint →
    folder.Extends joint.folder (sinks.flatMap Separate.files)
  files_eq {frames : List Frame} {joint : Fed (List σ)} {i : Nat} {s : σ} {own : Fed σ} :
    feedAll frames sinks folder = .ok joint → sinks[i]? = some s →
    Alone sinks i (Separate.files s) →
    feedOne frames s folder = .ok own → own.folder.AgreeOn joint.folder (Separate.files s)
  followed {n : Nat} {c : Course σ n} {before frames : List Frame} {joint : Fed (List σ)} {i : Nat}
    {s : σ} : feedAll frames sinks folder = .ok joint → sinks[i]? = some s → Alone sinks i c.own →
    c.took before s folder → before.length + frames.length ≤ n →
    ∃ t, joint.state[i]? = some t ∧ c.took (before ++ frames) t joint.folder

theorem fansOut {σ : Type} [Receives σ] [Separate σ] (sinks : List σ) (folder : Folder) :
    FansOut sinks folder where
  sends_iff := by
    refine ⟨fun ⟨joint, h⟩ s hs => ?_, exists_sendAll⟩
    obtain ⟨i, hi⟩ := List.getElem?_of_mem hs
    obtain ⟨own, hown, -⟩ := exists_send_of_sendAll h hi
    exact ⟨own, hown⟩
  sent := exists_sentApart
  feeds_iff := by
    refine ⟨fun ⟨joint, h⟩ s hs => ?_, exists_feedAll⟩
    obtain ⟨i, hi⟩ := List.getElem?_of_mem hs
    obtain ⟨_, hfed⟩ := exists_fedApart h
    obtain ⟨r, ⟨g, hown⟩, -⟩ := hfed.exists_reactsTo hi
    exact ⟨_, hown⟩
  fed := exists_fedApart
  offered := exists_watched
  extends_folder := extends_feedAll
  files_eq h hs halone hown := agreeOn_feedAll h hs halone hown (.refl folder _)
  followed h hs halone htook hroom := took_feedAll _ h hs halone htook hroom

section Received

variable {frame : Frame} {frames : List Frame} {sinks : List Sink} {s : Sink} {i : Nat} {f : Folder}
  {joint : Fed (List Sink)} {own : Fed Sink}

/-- What has become of a sink that was fed without a failure. Behind what it had written before come
the records of the frames, or lines that report on them, one a frame; a hand-off has handed them
over. -/
def Received (frames : List Frame) (begun after : Folder) : Sink → Sink → Prop
  | .file s, t => ∃ w, s.writer = some w ∧ ∀ before, w.Holds begun before →
      ∃ s', t = .file s' ∧ s'.Saved w.path after (before ++ Frame.stream frames)
  | .report s, t => ∃ w, s.writer = some w ∧ ∀ before, w.Holds begun before →
      ∃ s' lines, t = .report s' ∧ Report.ReportsOn lines s.frames frames ∧
        s'.Noted w.path after (s.frames + frames.length) (before ++ Report.fileOf lines)
  | .handoff s, t => t = .handoff (s.after frames)

theorem feedOne_handoff {s : HandoffSink} (hown : feedOne frames (.handoff s) f = .ok own)
    (hok : ∀ r ∈ own.results, r = .ok ()) : own.state = .handoff (s.after frames) := by
  unfold feedOne at hown
  induction frames generalizing s f own with
  | nil =>
    cases hown
    rw [s.after_nil]
  | cons frame rest ih =>
    obtain ⟨first, others, hfirst, hothers, rfl⟩ := feed_cons_eq_ok_iff.1 hown
    rw [List.forall_mem_cons] at hok
    rw [receives_send, Sink.send] at hfirst
    cases hsend : s.send frame with
    | error fault =>
      rw [hsend] at hfirst
      cases hfirst
    | ok sent =>
      obtain ⟨result, t⟩ := sent
      rw [hsend] at hfirst
      cases hfirst
      obtain rfl : result = .ok () := hok.1
      have ht := HandoffSink.eq_after_of_send hsend
      rw [ih hothers hok.2, ht, HandoffSink.after_append]
      rfl

theorem not_ok_of_refuses (hframes : frames ≠ []) {error : Error}
    (hrefuses : ∀ frame f, s.send frame f = .ok ⟨.error error, (s, f), []⟩)
    (hown : feedOne frames s f = .ok own) : ¬ ∀ r ∈ own.results, r = .ok () := by
  obtain ⟨frame, rest, rfl⟩ := List.exists_cons_of_ne_nil hframes
  obtain ⟨first, others, hfirst, -, rfl⟩ := feed_cons_eq_ok_iff.1 hown
  obtain rfl := Except.ok.inj ((hrefuses frame f).symm.trans hfirst)
  intro hok
  cases hok _ List.mem_cons_self

theorem received_feedAll (hjoint : feedAll frames sinks f = .ok joint) (hs : sinks[i]? = some s)
    (halone : Alone sinks i s.files) (hown : feedOne frames s f = .ok own)
    (hok : ∀ r ∈ own.results, r = .ok ()) (hframes : frames ≠ []) :
    Received frames f joint.folder s own.state := by
  have hstate := state_feedAll hjoint hs hown
  cases s with
  | file s =>
    cases hwriter : s.writer with
    | none =>
      have hclosed (frame : Frame) (f : Folder) : (Sink.file s).send frame f =
          .ok ⟨.error (notStarted "file_write"), (.file s, f), []⟩ := by
        simp only [Sink.send, FileSink.send, hwriter, lift]
      exact absurd hok (not_ok_of_refuses hframes hclosed hown)
    | some w =>
      refine ⟨w, hwriter, fun before hholds => ?_⟩
      let c := Course.file frames.length w.path before
      have htook : c.took [] (.file s) f :=
        ⟨s, rfl, w, hwriter, rfl, by simpa [Frame.stream] using hholds⟩
      have hown : Alone sinks i c.own := by simpa [c, Course.file, files, hwriter] using halone
      obtain ⟨t, ht, s', rfl, hsaved⟩ := took_feedAll c hjoint hs hown htook (by simp)
      exact ⟨s', Option.some.inj (hstate.symm.trans ht), by simpa using hsaved⟩
  | report s =>
    cases hwriter : s.writer with
    | none =>
      have hclosed (frame : Frame) (f : Folder) : (Sink.report s).send frame f =
          .ok ⟨.error (notStarted "report_write"), (.report s, f), []⟩ := by
        simp only [Sink.send, ReportSink.send, hwriter, lift]
      exact absurd hok (not_ok_of_refuses hframes hclosed hown)
    | some w =>
      refine ⟨w, hwriter, fun before hholds => ?_⟩
      let c := Course.report frames.length w.path before s.frames
      have htook : c.took [] (.report s) f :=
        ⟨s, rfl, rfl, w, hwriter, rfl, by simpa [Report.lines, Report.fileOf] using hholds⟩
      have hown : Alone sinks i c.own := by simpa [c, Course.report, files, hwriter] using halone
      obtain ⟨t, ht, s', rfl, hnoted⟩ := took_feedAll c hjoint hs hown htook (by simp)
      exact ⟨s', _, Option.some.inj (hstate.symm.trans ht), Report.reportsOn_lines _ _,
        by simpa using hnoted⟩
  | handoff s => exact feedOne_handoff hown hok

end Received

/-- A sink of this library that has its file to itself and answers every frame without a failure has
received all of them. -/
def DeliversAll (sinks : List Sink) (folder : Folder) : Prop :=
  ∀ {frames : List Frame} {joint : Fed (List Sink)} {i : Nat} {s : Sink} {own : Fed Sink},
    feedAll frames sinks folder = .ok joint → sinks[i]? = some s → Alone sinks i s.files →
    feedOne frames s folder = .ok own → (∀ r ∈ own.results, r = .ok ()) → frames ≠ [] →
    joint.state[i]? = some own.state ∧ Received frames folder joint.folder s own.state

/-- Sinks that mind their own files answer and end as they do alone, whatever the others in the list
answer. Of the sinks of this library, one that is fed without a failure has received all frames in
order. -/
theorem fan_out :
    (∀ {σ : Type} [Receives σ] [Separate σ] (sinks : List σ) (folder : Folder),
      FansOut sinks folder) ∧
    ∀ (sinks : List Sink) (folder : Folder), DeliversAll sinks folder :=
  ⟨fansOut, fun _ _ _ _ _ _ _ hjoint hs halone hown hok hframes =>
    ⟨state_feedAll hjoint hs hown, received_feedAll hjoint hs halone hown hok hframes⟩⟩

theorem fan_out_deaf :
    let sinks : List Sink := [.handoff { channel := { depth := 1, subscribed := false } },
      .report { path := "r" }, .file { path := "o", writer := some { path := ["o"] } }]
    let folder : Folder := { files := [(["o"], .empty)] }
    FansOut sinks folder ∧ ∃ joint t, feedAll [.dot, .dot] sinks folder = .ok joint ∧
      joint.results = [.error Handoff.noSubscriber, .error Handoff.noSubscriber] ∧
      joint.state[2]? = some (.file t) ∧
      t.Saved ["o"] joint.folder (Frame.stream [.dot, .dot]) := by
  intro sinks folder
  have halone : Alone sinks 2 [["o"]] := by simp [Alone, sinks, Separate.files, files]
  obtain ⟨joint, hjoint, hresults⟩ : ∃ joint, feedAll [.dot, .dot] sinks folder = .ok joint ∧
      joint.results = [.error Handoff.noSubscriber, .error Handoff.noSubscriber] := ⟨_, rfl, rfl⟩
  obtain ⟨own, hown, hanswers⟩ : ∃ own, feedOne [.dot, .dot] sinks[2] folder = .ok own ∧
      own.results = [.ok (), .ok ()] := ⟨_, rfl, rfl⟩
  obtain ⟨hstate, w, hwriter, hreceived⟩ :=
    fan_out.2 sinks folder hjoint rfl halone hown (by simp [hanswers]) (by simp)
  obtain rfl := Option.some.inj hwriter
  obtain ⟨t, ht, hsaved⟩ := hreceived .empty ⟨.empty, rfl, rfl, rfl⟩
  rw [ByteArray.empty_append] at hsaved
  exact ⟨fan_out.1 sinks folder, joint, t, hjoint, hresults, ht ▸ hstate, hsaved⟩

end Sink

end VectorDisplay
